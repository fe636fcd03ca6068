import OpenTela.Lib.Batch
import OpenTela.Crdt.Encoding

namespace OpenTela

/-- A datastore key as its list of namespaces; `ds.Key` keeps it clean. -/
abbrev Path := List String

/-- The keys users write, `ds.NewKey(k).Namespaces()`. -/
abbrev Key := List String

/-- A block id: the one-namespace datastore key of the block's multihash. -/
abbrev Id := String

/-- Namespace of the set below the store's own, `/ocf-crdt/s`. -/
def setNamespace : Path := ["ocf-crdt", "s"]

def elemsNs : String := "s"
def tombsNs : String := "t"
def keysNs : String := "k"
def valueSuffix : String := "v"
def prioritySuffix : String := "p"

def keyPrefix (key : String) : Path := setNamespace ++ [key]

def elemsPrefix (key : Key) : Path := keyPrefix elemsNs ++ key

def tombsPrefix (key : Key) : Path := keyPrefix tombsNs ++ key

def valueKey (key : Key) : Path := keyPrefix keysNs ++ key ++ [valueSuffix]

def priorityKey (key : Key) : Path := keyPrefix keysNs ++ key ++ [prioritySuffix]

def elemsKey (key : Key) (id : Id) : Path := elemsPrefix key ++ [id]

def tombsKey (key : Key) (id : Id) : Path := tombsPrefix key ++ [id]

/-- A query for `pre` returns the keys strictly below it. -/
def below (pre : Path) (path : Path) : Bool := pre.isPrefixOf path && decide (pre.length < path.length)

/-- `TrimPrefix` followed by `IsTopLevel`: the block id of an element key, and
nothing for the keys of a longer user key that the query returns too. -/
def topLevel (pre : Path) (path : Path) : Option Id :=
  match path.drop pre.length with
  | [id] => some id
  | _ => none

section Layout

variable {key key' : Key} {id id' : Id}

@[simp] theorem elemsKey_inj : elemsKey key id = elemsKey key' id' ↔ key = key' ∧ id = id' := by
  simp [elemsKey, elemsPrefix, keyPrefix, setNamespace]

@[simp] theorem tombsKey_inj : tombsKey key id = tombsKey key' id' ↔ key = key' ∧ id = id' := by
  simp [tombsKey, tombsPrefix, keyPrefix, setNamespace]

@[simp] theorem valueKey_inj : valueKey key = valueKey key' ↔ key = key' := by
  simp [valueKey, keyPrefix, setNamespace]

@[simp] theorem priorityKey_inj : priorityKey key = priorityKey key' ↔ key = key' := by
  simp [priorityKey, keyPrefix, setNamespace]

@[simp] theorem elemsKey_ne_tombsKey : elemsKey key id ≠ tombsKey key' id' := by
  simp [elemsKey, tombsKey, elemsPrefix, tombsPrefix, keyPrefix, setNamespace, elemsNs, tombsNs]

@[simp] theorem elemsKey_ne_valueKey : elemsKey key id ≠ valueKey key' := by
  simp [elemsKey, valueKey, elemsPrefix, keyPrefix, setNamespace, elemsNs, keysNs]

@[simp] theorem elemsKey_ne_priorityKey : elemsKey key id ≠ priorityKey key' := by
  simp [elemsKey, priorityKey, elemsPrefix, keyPrefix, setNamespace, elemsNs, keysNs]

@[simp] theorem tombsKey_ne_elemsKey : tombsKey key id ≠ elemsKey key' id' := elemsKey_ne_tombsKey.symm

@[simp] theorem tombsKey_ne_valueKey : tombsKey key id ≠ valueKey key' := by
  simp [tombsKey, valueKey, tombsPrefix, keyPrefix, setNamespace, tombsNs, keysNs]

@[simp] theorem tombsKey_ne_priorityKey : tombsKey key id ≠ priorityKey key' := by
  simp [tombsKey, priorityKey, tombsPrefix, keyPrefix, setNamespace, tombsNs, keysNs]

@[simp] theorem valueKey_ne_elemsKey : valueKey key ≠ elemsKey key' id' := elemsKey_ne_valueKey.symm

@[simp] theorem valueKey_ne_tombsKey : valueKey key ≠ tombsKey key' id' := tombsKey_ne_valueKey.symm

@[simp] theorem valueKey_ne_priorityKey : valueKey key ≠ priorityKey key' := by
  simp [valueKey, priorityKey, keyPrefix, setNamespace, valueSuffix, prioritySuffix]

@[simp] theorem priorityKey_ne_elemsKey : priorityKey key ≠ elemsKey key' id' :=
  elemsKey_ne_priorityKey.symm

@[simp] theorem priorityKey_ne_tombsKey : priorityKey key ≠ tombsKey key' id' :=
  tombsKey_ne_priorityKey.symm

@[simp] theorem priorityKey_ne_valueKey : priorityKey key ≠ valueKey key' := valueKey_ne_priorityKey.symm

/-- A top-level result of an element query is exactly the element key of that id. -/
theorem topLevel_elems {path : Path} (member : below (elemsPrefix key) path = true) :
    topLevel (elemsPrefix key) path = some id ↔ path = elemsKey key id := by
  obtain ⟨rest, rfl⟩ : elemsPrefix key <+: path := by
    simpa using (Bool.and_eq_true_iff.mp member).1
  simp only [topLevel, List.drop_left, elemsKey, List.append_cancel_left_eq]
  cases rest with
  | nil => simp
  | cons first others =>
    cases others with
    | nil => simp
    | cons => simp

@[simp] theorem below_elemsKey : below (elemsPrefix key) (elemsKey key id) = true := by
  simp [below, elemsKey]

end Layout

end OpenTela
