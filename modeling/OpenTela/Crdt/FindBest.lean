import OpenTela.Crdt.Triples

namespace OpenTela

open OpenTela.SetM

/-- The rank a run of `findBestValue` has found; a `nil` value is none. -/
def bestRank (best : Option Bytes × ℕ) : Option Rank := best.1.map (fun v => toLex (best.2, v))

/-- One round of the loop is a challenge to the best rank found so far. -/
theorem preferDelta_challenge {key : Key} {d : Delta} (best : Option Bytes × ℕ) {g : Bytes}
    (greatest : greatestValueInDelta key d = some g) (zero : best.1 = none → best.2 = 0) :
    bestRank (preferDelta key d best) = challenge (bestRank best) (toLex (d.priority, g)) ∧
      (preferDelta key d best).1 ≠ none := by
  obtain ⟨value, priority⟩ := best
  have positive := greatestValueInDelta_positive greatest
  unfold preferDelta
  simp only [greatest]
  by_cases lower : d.priority < priority
  · rw [if_pos lower]
    cases value with
    | none => exact absurd (zero rfl) (by simp only; omega)
    | some v =>
      have below : toLex (d.priority, g) ≤ toLex (priority, v) := (Prod.Lex.lt_iff.mpr (Or.inl lower)).le
      exact ⟨(challenge_of_le below).symm, by simp⟩
  rw [if_neg lower]
  by_cases higher : priority < d.priority
  · rw [if_pos higher]
    refine ⟨(challenge_of_lt ?_).symm, by simp⟩
    intro q same
    obtain ⟨v, _, rfl⟩ := Option.map_eq_some_iff.mp same
    exact Prod.Lex.lt_iff.mpr (Or.inl higher)
  rw [if_neg higher]
  have equal : d.priority = priority := by omega
  subst equal
  cases value with
  | none =>
    rw [if_pos (by simpa using positive)]
    exact ⟨rfl, by simp⟩
  | some v =>
    by_cases above : v < g
    · rw [if_pos (by simpa using above)]
      refine ⟨(challenge_of_lt ?_).symm, by simp⟩
      intro q same
      cases Option.some.inj same
      exact Prod.Lex.lt_iff.mpr (Or.inr ⟨rfl, above⟩)
    · rw [if_neg (by simpa using above)]
      refine ⟨(challenge_of_le ?_).symm, by simp⟩
      exact Prod.Lex.le_iff.mpr (Or.inr ⟨rfl, not_lt.mp above⟩)

theorem preferDelta_bound {key : Key} {d : Delta} {best : Option Bytes × ℕ} (bound : best.2 < word) :
    (preferDelta key d best).2 < word := by
  unfold preferDelta
  split
  · exact bound
  · split
    · exact d.priority_lt
    · split <;> exact bound

section Triple

variable {τ : Type} [DecidableEq τ] {env : Env} {i : τ} {d : Delta} {id : Id} {waits : SetOp → Prop}
  {rely : Core τ → Core τ → Prop} (tol : Tolerates env i d id waits rely)

/-- Interference leaves the survivors of these tombstones alone. -/
def Fixed (rely : Core τ → Core τ → Prop) (key : Key) (pending : List Id) : Prop :=
  ∀ b c, rely b c → survivors c.store key {x | x ∈ pending} = survivors b.store key {x | x ∈ pending}

include tol in
theorem getDelta_triple {block : Id} {key : Key} {w : World τ} {r : Rank} (rank : env.rank key block = some r) :
    Triple env i d id waits rely (getDelta block)
      (fun delta u => Steady rely i w u ∧ env.dag block = some delta) w := by
  apply tol.bind
  refine triple_fetch (fun t u first second => ?_)
  cases found : env.dag block with
  | none => simp [Env.rank, found] at rank
  | some delta => exact fun u' later =>
      ⟨tol.steady_trans _ _ _ first (tol.steady_trans _ _ _ second later), rfl⟩

/-- `best` is the greatest rank among the survivors whose ids are among those `tried`. -/
structure Tried (env : Env) (rely : Core τ → Core τ → Prop) (key : Key) (pending : List Id) (tried : Set Id)
    (best : Option Bytes × ℕ) (w : World τ) : Prop where
  bound : best.2 < word
  zero : best.1 = none → best.2 = 0
  winner : Fixed rely key pending →
    Winner (env.ranks key (tried ∩ survivors w.store key {x | x ∈ pending})) (bestRank best)

section Tried

variable {key : Key} {pending : List Id} {tried : Set Id} {best : Option Bytes × ℕ} {w u : World τ}

omit [DecidableEq τ] in
theorem Tried.moved (found : Tried env rely key pending tried best w) (moved : Steady rely i w u) :
    Tried env rely key pending tried best u := by
  refine ⟨found.bound, found.zero, fun fixed => ?_⟩
  rw [fixed _ _ moved.1]
  exact found.winner fixed

omit [DecidableEq τ] in
/-- A round that skips its path: no survivor has that id. -/
theorem Tried.skip (found : Tried env rely key pending tried best w) {skipped : Set Id}
    (gone : Fixed rely key pending → ∀ x ∈ skipped, x ∉ survivors w.store key {x | x ∈ pending}) :
    Tried env rely key pending (tried ∪ skipped) best w := by
  refine ⟨found.bound, found.zero, fun fixed => ?_⟩
  have none : skipped ∩ survivors w.store key {x | x ∈ pending} = ∅ :=
    Set.eq_empty_of_forall_notMem (fun x both => gone fixed x both.1 both.2)
  rw [Set.union_inter_distrib_right, none, Set.union_empty]
  exact found.winner fixed

omit [DecidableEq τ] in
/-- A round that looks at the value of a survivor. -/
theorem Tried.challenge (found : Tried env rely key pending tried best w) {block : Id} {delta : Delta} {r : Rank}
    (rank : env.rank key block = some r) (fetched : env.dag block = some delta)
    (alive : Fixed rely key pending → block ∈ survivors w.store key {x | x ∈ pending}) :
    Tried env rely key pending (tried ∪ {block}) (preferDelta key delta best) w := by
  obtain ⟨g, greatest, rfl⟩ : ∃ g, greatestValueInDelta key delta = some g ∧ toLex (delta.priority, g) = r := by
    simpa [Env.rank, Delta.rank, fetched, Option.map_eq_some_iff] using rank
  obtain ⟨challenged, some⟩ := preferDelta_challenge best greatest found.zero
  refine ⟨preferDelta_bound found.bound, fun none => absurd none some, fun fixed => ?_⟩
  rw [Set.union_singleton, Set.insert_inter_of_mem (alive fixed), env.ranks_insert rank, challenged]
  exact (found.winner fixed).insert _

end Tried

include tol in
/-- The loop over the query results, after the rounds for the ids `tried`. -/
theorem findBestValue_loop_triple {key : Key} {pending : List Id} (results : List Path) {tried : Set Id}
    {best : Option Bytes × ℕ} {w : World τ} (sane : Sane env w.store)
    (scope : ∀ path ∈ results, below (elemsPrefix key) path = true)
    (members : ∀ x, elemsKey key x ∈ results → x ∈ elemsOf w.store key) (found : Tried env rely key pending tried best w) :
    Triple env i d id waits rely (findBestValue.loop key pending results best)
      (fun out u => Steady rely i w u ∧ Tried env rely key pending (tried ∪ {x | elemsKey key x ∈ results}) out u) w := by
  induction results generalizing best tried w with
  | nil =>
    refine triple_ret (fun u moved => ⟨moved, ?_⟩)
    simpa using found.moved moved
  | cons path rest ih =>
    have all : tried ∪ {x | elemsKey key x = path} ∪ {x | elemsKey key x ∈ rest} = tried ∪ {x | elemsKey key x ∈ path :: rest} := by
      ext x
      simp only [Set.mem_union, Set.mem_ofPred_eq, List.mem_cons, or_assoc]
    have onward : ∀ {t : World τ} {out : Option Bytes × ℕ}, Steady rely i w t →
        Tried env rely key pending (tried ∪ {x | elemsKey key x = path}) out t →
        Triple env i d id waits rely (findBestValue.loop key pending rest out)
          (fun out u => Steady rely i w u ∧ Tried env rely key pending (tried ∪ {x | elemsKey key x ∈ path :: rest}) out u) t := by
      intro t out moved next
      have members' : ∀ x, elemsKey key x ∈ rest → x ∈ elemsOf t.store key := fun x member =>
        (tol.quiet _ _ moved.1).elems key (members x (List.mem_cons_of_mem _ member))
      refine (ih (tol.sane moved sane) (fun p member => scope p (List.mem_cons_of_mem _ member)) members' next).mono ?_
      rintro out u ⟨later, done⟩
      rw [all] at done
      exact ⟨tol.steady_trans _ _ _ moved later, done⟩
    unfold findBestValue.loop
    cases atPath : topLevel (elemsPrefix key) path with
    | none =>
      refine onward (tol.steady_refl w) (found.skip (fun _ x here => ?_))
      have top : topLevel (elemsPrefix key) path = some x :=
        (topLevel_elems (scope path (List.mem_cons_self ..))).mpr here.symm
      rw [atPath] at top
      cases top
    | some block =>
      have here := (topLevel_elems (scope path (List.mem_cons_self ..))).mp atPath
      have own : {x | elemsKey key x = path} = {block} := by
        ext x
        simp [here, elemsKey_inj]
      rw [own] at onward
      by_cases waiting : block ∈ pending
      · simp only [if_pos waiting]
        refine onward (tol.steady_refl w) (found.skip (fun _ x same alive => ?_))
        obtain rfl := Set.mem_singleton_iff.mp same
        exact alive.2.2 waiting
      · simp only [if_neg waiting]
        apply tol.bind
        refine triple_has (fun t u first second => ?_)
        have moved := tol.steady_trans _ _ _ first second
        cases buried : t.store.has (tombsKey key block) with
        | true =>
          refine onward moved ((found.moved moved).skip (fun fixed x same alive => ?_))
          obtain rfl := Set.mem_singleton_iff.mp same
          rw [fixed _ _ second.1] at alive
          exact alive.2.1 buried
        | false =>
          have elem : block ∈ elemsOf t.store key :=
            (tol.quiet _ _ first.1).elems key (members block (here ▸ List.mem_cons_self ..))
          obtain ⟨r, rank⟩ := (tol.sane first sane).known key block elem
          apply tol.bind
          refine (getDelta_triple tol rank).mono ?_
          rintro delta v ⟨third, fetched⟩
          have moved' := tol.steady_trans _ _ _ moved third
          refine onward moved' ((found.moved moved').challenge rank fetched (fun fixed => ?_))
          rw [fixed _ _ (tol.steady_trans _ _ _ second third).1]
          exact ⟨elem, by simpa [tombsOf] using buried, waiting⟩

include tol in
/-- `findBestValue` returns without an error; and when nobody interferes with the survivors
of the pending tombstones, what it returns is the best of them. -/
theorem findBestValue_triple {key : Key} {pending : List Id} {w : World τ} (sane : Sane env w.store) :
    Triple env i d id waits rely (findBestValue key pending)
      (fun out u => Steady rely i w u ∧ out.2 < word ∧
        (Fixed rely key pending →
          Winner (env.ranks key (survivors w.store key {x | x ∈ pending})) (bestRank out))) w := by
  apply tol.bind
  refine triple_query (fun t u first second => ?_)
  have entries : ∀ path, path ∈ (env.queryOrder (t.store.select (below (elemsPrefix key)))).map Prod.fst ↔
      below (elemsPrefix key) path = true ∧ t.store.has path = true := by
    intro path
    simp only [List.mem_map, (env.queryOrder_perm _).mem_iff, Prod.exists, exists_and_right, exists_eq_right,
      Store.mem_select, Store.has, Option.isSome_iff_exists]
    simp only [exists_and_left]
  have moved := tol.steady_trans _ _ _ first second
  have nothing : Tried env rely key pending ∅ (none, 0) u :=
    ⟨by decide, fun _ => rfl, fun _ => by simp [Env.ranks, Winner, bestRank]⟩
  refine (findBestValue_loop_triple tol _ (tol.sane moved sane) (fun path member => ((entries path).mp member).1)
    (fun x member => (tol.quiet _ _ second.1).elems key ((entries _).mp member).2) nothing).mono ?_
  rintro out v ⟨later, done⟩
  have onward := tol.steady_trans _ _ _ moved later
  refine ⟨onward, done.bound, fun fixed => ?_⟩
  have whole : (∅ ∪ {x | elemsKey key x ∈ (env.queryOrder (t.store.select (below (elemsPrefix key)))).map Prod.fst}) ∩
      survivors v.store key {x | x ∈ pending} = survivors w.store key {x | x ∈ pending} := by
    rw [fixed _ _ onward.1, ← fixed _ _ first.1, Set.empty_union, Set.inter_eq_right]
    intro x alive
    exact (entries _).mpr ⟨below_elemsKey, alive.1⟩
  have winner := done.winner fixed
  rw [whole] at winner
  exact winner

end Triple

end OpenTela
