import Mathlib.Data.List.AList

/-- A key-value store: finitely many keys, each with one value. -/
abbrev Store (K V : Type) := AList (fun _ : K => V)

/-- Writes collected for one atomic commit, the newest first. `none` deletes the key. -/
abbrev Batch (K V : Type) := List (K × Option V)

namespace Batch

variable {K V : Type} [DecidableEq K]

def put (b : Batch K V) (key : K) (value : V) : Batch K V := (key, some value) :: b

def delete (b : Batch K V) (key : K) : Batch K V := (key, none) :: b

/-- Commits the writes in the order in which they were collected. -/
def apply : Batch K V → Store K V → Store K V
  | [], s => s
  | (key, some value) :: b, s => (apply b s).insert key value
  | (key, none) :: b, s => (apply b s).erase key

@[simp] theorem lookup_apply_nil (s : Store K V) (k : K) : (apply [] s).lookup k = s.lookup k := rfl

@[simp] theorem lookup_apply_cons (b : Batch K V) (s : Store K V) (key k : K) (value : Option V) :
    (apply ((key, value) :: b) s).lookup k = if k = key then value else (apply b s).lookup k := by
  cases value with
  | none =>
    by_cases same : k = key
    · subst same; simp [apply]
    · simp [apply, same]
  | some value =>
    by_cases same : k = key
    · subst same; simp [apply]
    · simp [apply, same]

@[simp] theorem lookup_apply_put (b : Batch K V) (s : Store K V) (key k : K) (value : V) :
    (apply (b.put key value) s).lookup k = if k = key then some value else (apply b s).lookup k :=
  lookup_apply_cons b s key k (some value)

@[simp] theorem lookup_apply_delete (b : Batch K V) (s : Store K V) (key k : K) :
    (apply (b.delete key) s).lookup k = if k = key then none else (apply b s).lookup k :=
  lookup_apply_cons b s key k none

end Batch

namespace Store

variable {K V : Type} [DecidableEq K]

def has (s : Store K V) (key : K) : Bool := (s.lookup key).isSome

/-- The entries whose key is in the scope of the query. -/
def select (s : Store K V) (scope : K → Bool) : List (K × V) :=
  (s.entries.filter (fun e => scope e.1)).map (fun e => (e.1, e.2))

theorem mem_select {s : Store K V} {scope : K → Bool} {key : K} {value : V} :
    (key, value) ∈ select s scope ↔ scope key = true ∧ s.lookup key = some value := by
  rw [← Option.mem_def, AList.mem_lookup_iff]
  constructor
  · intro member
    obtain ⟨⟨k, v⟩, found, same⟩ := List.mem_map.mp member
    obtain ⟨atEntry, inScope⟩ := List.mem_filter.mp found
    cases same
    exact ⟨inScope, atEntry⟩
  · rintro ⟨inScope, atEntry⟩
    exact List.mem_map.mpr ⟨⟨key, value⟩, List.mem_filter.mpr ⟨atEntry, inScope⟩, rfl⟩

theorem lookup_foldl_erase (keys : List K) (s : Store K V) (k : K) :
    (keys.foldl (fun s key => s.erase key) s).lookup k = if k ∈ keys then none else s.lookup k := by
  induction keys generalizing s with
  | nil => simp
  | cons key rest ih =>
    rw [List.foldl_cons, ih]
    by_cases same : k = key
    · subst same
      simp
    · rw [AList.lookup_erase_ne same]
      simp [same]

/-- Every entry is as it should be. -/
def All (P : K → V → Prop) (s : Store K V) : Prop := ∀ key value, s.lookup key = some value → P key value

section All

variable {P : K → V → Prop} {s : Store K V}

theorem All.empty : All P (∅ : Store K V) := fun _ _ none => nomatch none

theorem All.insert (all : All P s) {key : K} {value : V} (new : P key value) : All P (s.insert key value) := by
  intro k v found
  by_cases same : k = key
  · subst same
    rw [AList.lookup_insert] at found
    exact Option.some.inj found ▸ new
  · rw [AList.lookup_insert_ne same] at found
    exact all k v found

theorem All.erase (all : All P s) (key : K) : All P (s.erase key) := by
  intro k v found
  by_cases same : k = key
  · subst same
    rw [AList.lookup_erase] at found
    cases found
  · rw [AList.lookup_erase_ne same] at found
    exact all k v found

/-- What a key has, or a value that would do for it. -/
theorem All.getD (all : All P s) {key : K} {value : V} (new : P key value) : P key ((s.lookup key).getD value) := by
  cases found : s.lookup key with
  | none => exact new
  | some old => exact all key old found

theorem All.of_mem_keys (all : All P s) {key : K} (member : key ∈ s.keys) : ∃ value, P key value := by
  obtain ⟨value, found⟩ := Option.isSome_iff_exists.mp (AList.lookup_isSome.mpr (AList.mem_keys.mp member))
  exact ⟨value, all key value found⟩

end All

end Store
