import OpenTela.Lib.Modal
import OpenTela.Crdt.Set

namespace OpenTela

open Prog

/-- Whatever the operation, it is not a call of the put hook. -/
def SetOp.Silent (o : SetOp) : Prop := ∀ key value, o ≠ .hook (.put key value)

section Calls

variable {can : (o : SetOp) → o.Res → Prop} {safe : SetOp → Prop} (silent : ∀ o : SetOp, o.Silent → safe o)

include silent

theorem perform_minds {o : SetOp} (isSilent : o.Silent) : Minds can safe (Prog.perform o : SetM o.Res) :=
  fun _ _ => ⟨silent o isSilent, trivial⟩

theorem getPriority_minds (key : Key) : Minds can safe (getPriority key) := by
  refine Minds.bind (perform_minds silent (o := .get (priorityKey key)) (fun _ _ same => nomatch same)) (fun data => ?_)
  cases data with
  | none => trivial
  | some data =>
    simp only
    split <;> trivial

theorem keepsCurrent_minds (key : Key) (value : Bytes) (prio curPrio : ℕ) :
    Minds can safe (keepsCurrent key value prio curPrio) := by
  unfold keepsCurrent
  split
  · exact Minds.bind (perform_minds silent (o := .get (valueKey key)) (fun _ _ same => nomatch same)) (fun _ => trivial)
  · trivial

theorem setValue_minds {key : Key} {value : Bytes} (calls : safe (.hook (.put key value))) (writes : Batch Path Bytes) (id : Id)
    (prio : ℕ) : Minds can safe (setValue writes key id value prio) := by
  refine Minds.bind (perform_minds silent (o := .has (tombsKey key id)) (fun _ _ same => nomatch same)) (fun buried => ?_)
  cases buried with
  | true => trivial
  | false =>
    refine Minds.bind (getPriority_minds silent key) (fun curPrio => ?_)
    split
    · trivial
    · refine Minds.bind (keepsCurrent_minds silent key value prio curPrio) (fun kept => ?_)
      cases kept with
      | true => trivial
      | false => exact fun _ _ => ⟨calls, trivial⟩

theorem findBestValue_minds (key : Key) (pending : List Id) : Minds can safe (findBestValue key pending) := by
  have loop : ∀ results best, Minds can safe (findBestValue.loop key pending results best) := by
    intro results
    induction results with
    | nil => exact fun _ => trivial
    | cons path rest ih =>
      intro best
      unfold findBestValue.loop
      split
      · exact ih best
      · rename_i id _
        split
        · exact ih best
        · refine Minds.bind (perform_minds silent (o := .has (tombsKey key id)) (fun _ _ same => nomatch same)) (fun buried => ?_)
          cases buried with
          | true => exact ih best
          | false =>
            refine Minds.bind ?_ (fun delta => ih _)
            refine Minds.bind (perform_minds silent (o := .fetch id) (fun _ _ same => nomatch same)) (fun found => ?_)
            cases found <;> trivial
  exact Minds.bind (perform_minds silent (o := .query (elemsPrefix key)) (fun _ _ same => nomatch same)) (fun _ => loop _ _)

theorem putTombs_minds (tombs : List Element) : Minds can safe (putTombs tombs) := by
  have loop : ∀ tombs b, Minds can safe (putTombs.loop tombs b) := by
    intro tombs
    induction tombs with
    | nil => exact fun _ => trivial
    | cons e rest ih =>
      intro b
      refine Minds.bind (findBestValue_minds silent e.key _) (fun _ => ?_)
      exact Minds.bind (perform_minds silent (o := .now) (fun _ _ same => nomatch same)) (fun _ => ih _)
  have hooks : ∀ keys, Minds can safe (runDeleteHooks keys) := by
    intro keys
    induction keys with
    | nil => trivial
    | cons key rest ih => exact Minds.bind (perform_minds silent (o := .hook (.delete key)) (fun _ _ same => nomatch same)) (fun _ => ih)
  unfold putTombs
  split
  · trivial
  · refine Minds.bind (loop tombs {}) (fun b => ?_)
    refine Minds.bind (perform_minds silent (o := .commit b.writes) (fun _ _ same => nomatch same)) (fun _ => ?_)
    exact Minds.bind (perform_minds silent (o := .range b.deletedElems.keys) (fun _ _ same => nomatch same)) (fun _ => hooks _)

theorem putElems_minds {elems : List Element} (calls : ∀ e ∈ elems, safe (.hook (.put e.key e.value))) (id : Id) (prio : ℕ) :
    Minds can safe (putElems elems id prio) := by
  have loop : ∀ rest writes, (∀ e ∈ rest, safe (.hook (.put e.key e.value))) →
      Minds can safe (putElems.loop id prio rest writes) := by
    intro rest
    induction rest with
    | nil => exact fun _ _ => trivial
    | cons e rest ih =>
      intro writes calls
      refine Minds.bind (setValue_minds silent (calls e (List.mem_cons_self ..)) _ id prio) (fun _ => ?_)
      exact ih _ (fun e' member => calls e' (List.mem_cons_of_mem _ member))
  have ensured : ∀ p : SetM Unit, Minds can safe p → Minds can safe (Prog.ensure SetM.unlock p) := by
    intro p minds
    have last : safe .unlock := silent _ (fun _ _ same => nomatch same)
    induction p with
    | ret a => exact fun _ _ => ⟨last, trivial⟩
    | fail e => exact fun _ _ => ⟨last, trivial⟩
    | op o next ih => exact fun r possible => ⟨(minds r possible).1, ih r (minds r possible).2⟩
  refine Minds.bind (perform_minds silent (o := .lock) (fun _ _ same => nomatch same)) (fun _ => ensured _ ?_)
  split
  · trivial
  · exact Minds.bind (loop elems [] calls)
      (fun b => perform_minds silent (o := .commit b) (fun _ _ same => nomatch same))

/-- A merge calls the put hook for elements of its delta only. -/
theorem merge_minds {d : Delta} (calls : ∀ e ∈ d.elements, safe (.hook (.put e.key e.value))) (id : Id) :
    Minds can safe (merge d id) :=
  Minds.bind (putTombs_minds silent d.tombstones) (fun _ => putElems_minds silent calls id d.priority)

end Calls

/-- The hook calls of a merge that has run are put hooks of its elements, and delete hooks. -/
theorem merge_hook_calls {τ : Type} [DecidableEq τ] {env : Env} {i : τ} {d : Delta} {id : Id} {w u : World τ}
    {out : Except String Unit} (ran : (merge d id).run (exec env i) w = some (out, u)) :
    ∃ new, u.hooks i = w.hooks i ++ new ∧
      ∀ h ∈ new, (∃ key, h = .delete key) ∨ ∃ e ∈ d.elements, h = .put e.key e.value := by
  let safe : SetOp → Prop := fun o => ∀ key value, o = .hook (.put key value) → ∃ e ∈ d.elements, e.key = key ∧ e.value = value
  have minds : Minds (fun _ _ => True) safe (merge d id) := by
    refine merge_minds (fun o silent key value same => absurd same (silent key value)) (fun e member => ?_) id
    rintro key value ⟨⟩
    exact ⟨e, member, rfl, rfl⟩
  refine minds.run (fun s => ∃ new, s.hooks i = w.hooks i ++ new ∧
    ∀ h ∈ new, (∃ key, h = .delete key) ∨ ∃ e ∈ d.elements, h = .put e.key e.value) (fun _ _ _ _ _ _ => trivial) ?_
    ⟨[], by simp, by simp⟩ ran
  rintro o s r t ⟨new, grown, known⟩ fine executed
  cases o with
  | hook h =>
    obtain ⟨_, rfl⟩ := Prod.mk.inj (Option.some.inj executed)
    refine ⟨new ++ [h], by simp [grown], fun h' member => ?_⟩
    rcases List.mem_append.mp member with old | last
    · exact known h' old
    · obtain rfl := List.mem_singleton.mp last
      cases h' with
      | delete key => exact Or.inl ⟨key, rfl⟩
      | put key value =>
        obtain ⟨e, inDelta, rfl, rfl⟩ := fine key value rfl
        exact Or.inr ⟨e, inDelta, rfl⟩
  | lock =>
    simp only [exec] at executed
    split at executed
    · cases executed
      exact ⟨new, grown, known⟩
    · cases executed
  | _ =>
    obtain ⟨_, rfl⟩ := Prod.mk.inj (Option.some.inj executed)
    exact ⟨new, grown, known⟩

end OpenTela
