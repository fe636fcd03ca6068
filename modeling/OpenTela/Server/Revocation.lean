import OpenTela.Server.Evidence

namespace OpenTela

open Prog

/-- A lookup for a token that stands revoked finds no entry that still counts and lets anybody through. -/
def Lapses (c : AuthCrew) (i : ℕ) (_ : Call) : (o : AuthOp) → o.Res → Prop
  | .getFresh v key now, _ => c.state.overdue i = true → ∀ entry, c.state.cache v key = some entry → now ≤ entry.freshUntil →
      v.allowed entry.value = []
  | .getStale v key now, _ => c.state.overdue i = true → ∀ entry, c.state.cache v key = some entry → now ≤ entry.staleUntil →
      v.allowed entry.value = []
  | _, _ => True

/-- An evaluation of a token that stands revoked knows of nobody to let through. -/
structure AuthWorld.Sticks (s : AuthWorld) : Prop where
  counted : ∀ i n, s.late i = some n → n ≤ s.validated (s.account i).evaluation.subject.keyHash
  known : ∀ i, s.overdue i = true → ∀ allowed ∈ (s.account i).known, allowed = []
  granted : ∀ g ∈ s.granted, g.late = true → g.allowed = []

theorem AuthWorld.overdue_iff {s : AuthWorld} {i : ℕ} :
    s.overdue i = true ↔ s.late i = some (s.validated (s.account i).evaluation.subject.keyHash) := by
  unfold AuthWorld.overdue
  exact beq_iff_eq

section Steps

variable {s : AuthWorld} {i : ℕ} {k : Account}

theorem evaluation_update (same : k.evaluation = (s.account i).evaluation) (j : ℕ) :
    (Function.update s.account i k j).evaluation = (s.account j).evaluation := by
  by_cases here : j = i
  · subst here
    rw [Function.update_self, same]
  · rw [Function.update_of_ne here]

/-- A step that leaves the evaluation as it is, and finds nobody if the token stands revoked. -/
theorem AuthWorld.Sticks.learns (sticks : s.Sticks) (same : k.evaluation = (s.account i).evaluation)
    (nobody : s.overdue i = true → ∀ allowed ∈ k.known, allowed = []) :
    ({ s with account := Function.update s.account i k } : AuthWorld).Sticks := by
  have evaluations := evaluation_update same
  have overdue : ∀ j, ({ s with account := Function.update s.account i k } : AuthWorld).overdue j = s.overdue j := by
    intro j
    unfold AuthWorld.overdue
    dsimp only
    rw [evaluations j]
  refine ⟨fun j n late => ?_, fun j due => ?_, sticks.granted⟩
  · dsimp only
    rw [evaluations j]
    exact sticks.counted j n late
  · rw [overdue j] at due
    dsimp only
    by_cases here : j = i
    · subst here
      rw [Function.update_self]
      exact nobody due
    · rw [Function.update_of_ne here]
      exact sticks.known j due

theorem AuthWorld.Sticks.idles (sticks : s.Sticks) :
    ({ s with account := Function.update s.account i (s.account i) } : AuthWorld).Sticks :=
  sticks.learns rfl (sticks.known i)

theorem AuthWorld.Sticks.begins (sticks : s.Sticks) (subject : Subject) (now : ℤ) :
    ({ s with
        late := Function.update s.late i (if s.revoked subject.keyHash then some (s.validated subject.keyHash) else none)
        account := Function.update s.account i ((s.account i).starts subject now) } : AuthWorld).Sticks := by
  refine ⟨fun j n late => ?_, fun j due => ?_, sticks.granted⟩
  · dsimp only at late ⊢
    by_cases here : j = i
    · subst here
      rw [Function.update_self] at late ⊢
      split at late
      · exact (Option.some.inj late).ge
      · cases late
    · rw [Function.update_of_ne here] at late ⊢
      exact sticks.counted j n late
  · rw [AuthWorld.overdue_iff] at due
    dsimp only at due ⊢
    by_cases here : j = i
    · subst here
      rw [Function.update_self]
      exact fun _ none => by cases none
    · rw [Function.update_of_ne here] at due ⊢
      rw [Function.update_of_ne here] at due
      exact sticks.known j (AuthWorld.overdue_iff.mpr due)

theorem AuthWorld.Sticks.finds (sticks : s.Sticks) {v : AclVersion} {found : Option v.Decision}
    (nobody : ∀ decision, found = some decision → s.overdue i = true → v.allowed decision = []) :
    ({ s with account := Function.update s.account i ((s.account i).finds v found) } : AuthWorld).Sticks := by
  cases found with
  | none => exact sticks.idles
  | some decision =>
    refine sticks.learns rfl (fun due allowed member => ?_)
    rcases List.mem_cons.mp member with rfl | before
    · exact nobody decision rfl due
    · exact sticks.known i due allowed before

/-- After a validated OK no evaluation of the token under way counts as late any more. -/
theorem AuthWorld.Sticks.evaluate (sticks : s.Sticks) {v : AclVersion} {request : v.Request} (answer : Answer v.Response)
    (same : v.subject request = (s.account i).evaluation.subject) :
    ({ s.hear i v request answer with
        account := Function.update s.account i ((s.account i).hears v request answer) } : AuthWorld).Sticks := by
  unfold AuthWorld.hear Account.hears
  cases accepted : answer.accepted v request with
  | none =>
    dsimp only
    split
    · obtain ⟨counted, known, granted⟩ := sticks.idles (i := i)
      exact ⟨counted, known, granted⟩
    · exact sticks.idles
  | some out =>
    obtain ⟨resp, decision⟩ := out
    rw [same]
    generalize asking : (s.account i).evaluation.subject.keyHash = keyHash
    have evaluations := evaluation_update (s := s) (i := i)
      (k := { s.account i with
        known := v.allowed decision :: (s.account i).known
        live := { version := v, ttl := v.ttl resp, decision } :: (s.account i).live }) rfl
    refine ⟨fun j n late => ?_, fun j due => ?_, sticks.granted⟩
    · have before := sticks.counted j n late
      dsimp only
      rw [evaluations j]
      by_cases token : (s.account j).evaluation.subject.keyHash = keyHash
      · rw [token, Function.update_self]
        rw [token] at before
        exact Nat.le_succ_of_le before
      · rw [Function.update_of_ne token]
        exact before
    · rw [AuthWorld.overdue_iff] at due
      dsimp only at due ⊢
      rw [evaluations j] at due
      by_cases token : (s.account j).evaluation.subject.keyHash = keyHash
      · rw [token, Function.update_self] at due
        have before := sticks.counted j _ due
        rw [token] at before
        exact absurd before (Nat.not_succ_le_self _)
      · rw [Function.update_of_ne token] at due
        have other : j ≠ i := fun here => token (here ▸ asking)
        rw [Function.update_of_ne other]
        exact sticks.known j (AuthWorld.overdue_iff.mpr due)

theorem AuthWorld.Sticks.grant (sticks : s.Sticks) {allowed : List String} (known : allowed ∈ (s.account i).known) :
    ({ s with
        granted := s.granted ++ [{ thread := i, evaluation := (s.account i).evaluation, allowed, late := s.overdue i }]
        account := Function.update s.account i
          { s.account i with granted := allowed :: (s.account i).granted, given := allowed :: (s.account i).given } } :
      AuthWorld).Sticks := by
  have learned : ({ s with
      account := Function.update s.account i
        { s.account i with granted := allowed :: (s.account i).granted, given := allowed :: (s.account i).given } } : AuthWorld).Sticks :=
    sticks.learns rfl (sticks.known i)
  refine ⟨learned.counted, learned.known, fun g member late => ?_⟩
  rcases List.mem_append.mp member with before | new
  · exact sticks.granted g before late
  · obtain rfl := List.mem_singleton.mp new
    exact sticks.known i late allowed known

end Steps

section Runs

variable {setup : ServerSetup}

/-- One step, where the thread behaves and a lookup finds nobody for a revoked token. -/
theorem AuthWorld.Sticks.step {c : AuthCrew} {s' : AuthWorld} {i : ℕ} {chance : AuthChance} {task : Call} {o : AuthOp} {r : o.Res}
    (sticks : c.state.Sticks) (executed : AuthWorld.exec i chance o c.state = some (r, s')) (lapses : Lapses c i task o r)
    (behaves : conduct setup (c.state.account i) task o) : s'.Sticks := by
  cases executed
  cases o with
  | begin subject => exact sticks.begins subject chance.now
  | getFresh v key now =>
    refine sticks.finds (fun decision found due => ?_)
    obtain ⟨entry, there, rfl, fresh⟩ := Expiring.getFresh_some found
    exact lapses due entry there fresh
  | getStale v key now =>
    refine sticks.finds (fun decision found due => ?_)
    obtain ⟨entry, there, rfl, stale⟩ := Expiring.getStale_some found
    exact lapses due entry there stale
  | set v key decision freshFor staleFor now =>
    obtain ⟨counted, known, granted⟩ := sticks.idles (i := i)
    exact ⟨counted, known, granted⟩
  | getTrustedNodeCredential => exact sticks.idles
  | evaluate v request token => exact sticks.evaluate (chance.answer v) behaves
  | grant allowed => exact sticks.grant behaves
  | report allowed =>
    obtain ⟨counted, known, granted⟩ := sticks.idles (i := i)
    exact ⟨counted, known, granted⟩
  | surroundings => exact sticks.learns rfl (sticks.known i)
  | forward d =>
    obtain ⟨counted, known, granted⟩ := sticks.idles (i := i)
    exact ⟨counted, known, granted⟩

theorem AuthWorld.Sticks.fresh : ({} : AuthWorld).Sticks := by
  refine ⟨fun _ _ none => ?_, fun _ none => ?_, fun _ none => ?_⟩
  all_goals cases none

end Runs

namespace Revoked

open Carried

def revoking : AuthChance := said 40 (.response statusUnauthorized "" (.error ""))

/-- The token is presented once more while the evaluator is out of reach. -/
def late (seconds : ℤ) : AuthChance := said seconds .unreachable

/-- The token is allowed, and then it is revoked; `last` seconds after the start it is presented again. -/
def schedule (last : ℤ) : List (Crew.Move AuthChance Call) :=
  .enter call :: List.replicate 6 (.act 0 allowing) ++ .enter call :: List.replicate 3 (.act 1 revoking) ++
    .enter call :: List.replicate 6 (.act 2 (late last))

def run (last : ℤ) : AuthCrew := AuthCrew.fresh.play Carried.setup.system (fun _ _ => true) (schedule last)

/-- Every entry a lookup finds has expired. -/
def expired (c : AuthCrew) (_ : ℕ) (_ : Call) : AuthOp → Bool
  | .getFresh v key now => (c.state.cache v key).all (fun entry => decide (entry.freshUntil < now))
  | .getStale v key now => (c.state.cache v key).all (fun entry => decide (entry.staleUntil < now))
  | _ => true

theorem expired_lapses (c : AuthCrew) (i : ℕ) (task : Call) (o : AuthOp) (r : o.Res) (gone : expired c i task o = true) :
    Lapses c i task o r := by
  cases o with
  | getFresh v key now =>
    intro _ entry there fresh
    simp only [expired, there, Option.all_some, decide_eq_true_eq] at gone
    exact absurd gone (not_lt.mpr fresh)
  | getStale v key now =>
    intro _ entry there stale
    simp only [expired, there, Option.all_some, decide_eq_true_eq] at gone
    exact absurd gone (not_lt.mpr stale)
  | _ => trivial

end Revoked

end OpenTela
