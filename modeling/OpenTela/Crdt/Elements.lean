import OpenTela.Crdt.Removal

namespace OpenTela

open OpenTela.SetM Prog

/-- The entry `set.Elements` makes of a result: nothing where the key does not end in the value suffix. -/
def elements.entry (keysOnly : Bool) (result : Path × Bytes) : Option (Key × Bytes) :=
  if result.1.getLast? = some valueSuffix then
    some ((result.1.drop (keyPrefix keysNs).length).dropLast, if keysOnly then [] else result.2)
  else none

/-- `set.Elements`, for a query prefix that has been cleaned. -/
def elements (keysOnly : Bool) (pre : Key) : SetM (List (Key × Bytes)) := do
  let results ← query (keyPrefix keysNs ++ pre)
  return results.filterMap (elements.entry keysOnly)

/-- The prefix filter of `query.NaiveQueryApply`. -/
def inScope (pre : Key) (key : Key) : Bool := pre.isEmpty || below pre key

/-- `Datastore.Query`. -/
def queryElements (keysOnly : Bool) (pre : Key) : SetM (List (Key × Bytes)) := do
  let results ← elements keysOnly pre
  return results.filter (fun e => inScope pre e.1)

theorem Store.select_nodup (s : SetStore) (scope : Path → Bool) : ((s.select scope).map Prod.fst).Nodup := by
  have keys : (s.entries.map Sigma.fst).Nodup := s.nodupKeys
  rw [Store.select, List.map_map]
  exact keys.sublist (List.filter_sublist.map _)

section Query

variable {keysOnly : Bool} {pre key : Key} {value : Bytes} {path : Path}

theorem entry_valueKey : elements.entry keysOnly (valueKey key, value) = some (key, if keysOnly then [] else value) := by
  have suffix : (valueKey key).getLast? = some valueSuffix := List.getLast?_concat
  have inner : ((valueKey key).drop (keyPrefix keysNs).length).dropLast = key := by
    rw [valueKey, List.append_assoc, List.drop_left, List.dropLast_concat]
  simp only [elements.entry, suffix, inner, if_true]

/-- Below the namespace of the keys, what ends in the value suffix is a value. -/
theorem eq_valueKey (scope : below (keyPrefix keysNs ++ pre) path = true) (suffix : path.getLast? = some valueSuffix) :
    path = valueKey ((path.drop (keyPrefix keysNs).length).dropLast) := by
  obtain ⟨isPrefix, longer⟩ := (Bool.and_eq_true _ _).mp scope
  obtain ⟨rest, rfl⟩ := List.isPrefixOf_iff_prefix.mp isPrefix
  have nonempty : pre ++ rest ≠ [] := by
    rintro none
    rw [List.append_assoc, none] at longer
    simp at longer
  rw [List.append_assoc, List.drop_left]
  rw [List.append_assoc, List.getLast?_append_of_ne_nil _ nonempty] at suffix
  have last := List.dropLast_append_getLast? valueSuffix suffix
  rw [valueKey, List.append_assoc, last]

theorem below_of_inScope (scope : inScope pre key = true) : below (keyPrefix keysNs ++ pre) (valueKey key) = true := by
  have start : pre <+: key := by
    rcases (Bool.or_eq_true _ _).mp scope with empty | lower
    · rw [List.isEmpty_iff.mp empty]
      exact List.nil_prefix
    · exact List.isPrefixOf_iff_prefix.mp ((Bool.and_eq_true _ _).mp lower).1
  obtain ⟨rest, rfl⟩ := start
  have whole : valueKey (pre ++ rest) = keyPrefix keysNs ++ pre ++ (rest ++ [valueSuffix]) := by
    simp only [valueKey, List.append_assoc]
  rw [below, whole]
  refine (Bool.and_eq_true _ _).mpr ⟨List.isPrefixOf_iff_prefix.mpr (List.prefix_append _ _), decide_eq_true ?_⟩
  simp only [List.length_append, List.length_singleton]
  omega

variable {τ : Type} [DecidableEq τ] (env : Env) (i : τ) (w : World τ)

/-- `Query` returns each key in its scope that has a value, once, with the value that `Get` returns. -/
theorem queryElements_run (keysOnly : Bool) (pre : Key) :
    ∃ r, (queryElements keysOnly pre).run (exec env i) w = some (.ok r, w) ∧ (r.map Prod.fst).Nodup ∧
      ∀ key value, (key, value) ∈ r ↔ inScope pre key = true ∧
        ∃ v, w.store.lookup (valueKey key) = some v ∧ value = if keysOnly then [] else v := by
  have order := env.queryOrder_perm (w.store.select (below (keyPrefix keysNs ++ pre)))
  have selected : ∀ path value, (path, value) ∈ env.queryOrder (w.store.select (below (keyPrefix keysNs ++ pre))) ↔
      below (keyPrefix keysNs ++ pre) path = true ∧ w.store.lookup path = some value := fun path value =>
    order.mem_iff.trans Store.mem_select
  refine ⟨_, rfl, ?_, fun key value => ?_⟩
  · have apart : ((env.queryOrder (w.store.select (below (keyPrefix keysNs ++ pre)))).filterMap
        (elements.entry keysOnly)).Pairwise (fun a b => a.1 ≠ b.1) := by
      rw [List.pairwise_filterMap]
      have different := List.pairwise_map.mp ((order.map Prod.fst).nodup_iff.mpr (Store.select_nodup w.store _))
      refine List.Pairwise.imp_of_mem ?_ different
      rintro ⟨path, v⟩ ⟨path', v'⟩ member member' paths e made e' made' same
      obtain ⟨under, _⟩ := (selected path v).mp member
      obtain ⟨under', _⟩ := (selected path' v').mp member'
      rw [elements.entry] at made made'
      split at made
      · rename_i suffix
        split at made'
        · rename_i suffix'
          obtain rfl := Option.some.inj made
          obtain rfl := Option.some.inj made'
          exact paths ((eq_valueKey under suffix).trans ((congrArg valueKey same).trans (eq_valueKey under' suffix').symm))
        · cases made'
      · cases made
    exact List.pairwise_map.mpr (apart.filter _)
  · rw [List.mem_filter, List.mem_filterMap]
    constructor
    · rintro ⟨⟨⟨path, v⟩, member, made⟩, scope⟩
      obtain ⟨under, stored⟩ := (selected path v).mp member
      rw [elements.entry] at made
      split at made
      · rename_i suffix
        obtain ⟨rfl, rfl⟩ := Prod.mk.inj (Option.some.inj made)
        exact ⟨scope, v, by rw [← eq_valueKey under suffix]; exact stored, rfl⟩
      · cases made
    · rintro ⟨scope, v, stored, rfl⟩
      exact ⟨⟨(valueKey key, v), (selected _ v).mpr ⟨below_of_inScope scope, stored⟩, entry_valueKey⟩, scope⟩

end Query

end OpenTela
