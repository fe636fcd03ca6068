import OpenTela.Crdt.Views

namespace OpenTela

/-- The tombstone `Rmv` makes of a query result, if that is a live element of the key. -/
def rmv.tombstone (s : SetStore) (key : Key) (path : Path) : Option Element :=
  (topLevel (elemsPrefix key) path).bind (fun id => if s.has (tombsKey key id) then none else some { key := key, id := id })

section Removal

variable {τ : Type} [DecidableEq τ] (env : Env) (i : τ) (w : World τ) (key : Key)

theorem rmv_loop_run (results : List Path) (tombstones : List Element) :
    (rmv.loop key results tombstones).run (exec env i) w =
      some (.ok (tombstones ++ results.filterMap (rmv.tombstone w.store key)), w) := by
  induction results generalizing tombstones with
  | nil => simp [rmv.loop, Prog.run]
  | cons path rest ih =>
    cases top : topLevel (elemsPrefix key) path with
    | none =>
      have skipped : rmv.tombstone w.store key path = none := by simp [rmv.tombstone, top]
      simpa [rmv.loop, top, List.filterMap_cons, skipped] using ih tombstones
    | some id =>
      simp only [rmv.loop, top]
      change Prog.run (exec env i) (if w.store.has (tombsKey key id) then rmv.loop key rest tombstones
        else rmv.loop key rest (tombstones ++ [{ key := key, id := id }])) w = _
      cases buried : w.store.has (tombsKey key id) with
      | true =>
        have skipped : rmv.tombstone w.store key path = none := by simp [rmv.tombstone, top, buried]
        simpa [List.filterMap_cons, skipped] using ih tombstones
      | false =>
        have made : rmv.tombstone w.store key path = some { key := key, id := id } := by simp [rmv.tombstone, top, buried]
        rw [if_neg (by decide), ih, List.filterMap_cons_some made, List.append_assoc]
        rfl

theorem tombstone_eq_some {key} {s : SetStore} {path : Path} {e : Element} (scope : below (elemsPrefix key) path = true) :
    rmv.tombstone s key path = some e ↔ path = elemsKey key e.id ∧ e = { key := key, id := e.id } ∧ e.id ∉ tombsOf s key := by
  simp only [rmv.tombstone, Option.bind_eq_some_iff, topLevel_elems scope, tombsOf, Set.mem_ofPred_eq]
  constructor
  · rintro ⟨id, rfl, made⟩
    split at made
    · cases made
    · rename_i alive
      obtain rfl := Option.some.inj made
      exact ⟨rfl, rfl, alive⟩
  · rintro ⟨rfl, shape, alive⟩
    exact ⟨e.id, rfl, by rw [if_neg alive, ← shape]⟩

/-- `Rmv` names exactly the live elements of the key. -/
theorem rmv_run :
    ∃ tombstones, (rmv key).run (exec env i) w = some (.ok tombstones, w) ∧ (∀ e ∈ tombstones, e.key = key) ∧
      ∀ x, (∃ e ∈ tombstones, e.id = x) ↔ x ∈ survivors w.store key ∅ := by
  have order := env.queryOrder_perm (w.store.select (below (elemsPrefix key)))
  have inScope : ∀ path ∈ (env.queryOrder (w.store.select (below (elemsPrefix key)))).map Prod.fst,
      below (elemsPrefix key) path = true ∧ w.store.has path = true := by
    intro path member
    obtain ⟨⟨_, value⟩, found, rfl⟩ := List.mem_map.mp member
    obtain ⟨scope, stored⟩ := Store.mem_select.mp (order.mem_iff.mp found)
    exact ⟨scope, by rw [Store.has, stored]; rfl⟩
  refine ⟨_, rmv_loop_run env i w key _ [], fun e member => ?_, fun x => ⟨?_, fun live => ?_⟩⟩
  · obtain ⟨path, found, made⟩ := List.mem_filterMap.mp member
    exact congrArg Element.key ((tombstone_eq_some (inScope path found).1).mp made).2.1
  · rintro ⟨e, member, rfl⟩
    obtain ⟨path, found, made⟩ := List.mem_filterMap.mp member
    obtain ⟨scope, stored⟩ := inScope path found
    obtain ⟨rfl, _, alive⟩ := (tombstone_eq_some scope).mp made
    exact ⟨stored, alive, id⟩
  · obtain ⟨elem, alive, _⟩ := live
    obtain ⟨value, found⟩ := Option.isSome_iff_exists.mp elem
    refine ⟨{ key := key, id := x }, List.mem_filterMap.mpr ⟨elemsKey key x, ?_, ?_⟩, rfl⟩
    · exact List.mem_map.mpr ⟨(elemsKey key x, value), order.mem_iff.mpr (Store.mem_select.mpr ⟨below_elemsKey, found⟩), rfl⟩
    · exact (tombstone_eq_some below_elemsKey).mpr ⟨rfl, rfl, alive⟩

end Removal

end OpenTela
