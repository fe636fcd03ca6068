import OpenTela.Swim.Wire

namespace OpenTela.Swim

def maxMetadataBytes : ℕ := 256

/-- What a node tells of itself along with an event. -/
structure Metadata where
  role : UInt8
  identityGroups : List String
  activeRequests : UInt16
  regionHint : UInt16
  deriving DecidableEq

namespace Metadata

/-- The first `k` of the identity groups and no more. -/
def cut (m : Metadata) (k : ℕ) : Metadata := { m with identityGroups := m.identityGroups.take k }

variable (json : Metadata → Except String (List UInt8))

/-- The loop of `marshal`, with `k` groups left and `data` their encoding. -/
def truncate (m : Metadata) : ℕ → List UInt8 → Except String (List UInt8)
  | k + 2, data =>
    if maxMetadataBytes < data.length then do
      let data ← json (m.cut (k + 1))
      truncate m (k + 1) data
    else .ok data
  | _, data => .ok data

def marshal (m : Metadata) : Except String (List UInt8) := do
  let data ← json m
  if maxMetadataBytes < data.length then truncate json m m.identityGroups.length data
  else .ok data

variable {json}

theorem cut_of_le (m : Metadata) {k : ℕ} (all : m.identityGroups.length ≤ k) : m.cut k = m := by
  simp only [cut, List.take_of_length_le all]

theorem cut_min (m : Metadata) (k : ℕ) : m.cut k = m.cut (min k m.identityGroups.length) := by
  simp only [cut]
  rw [List.take_eq_take_min]

/-- The encoding is small enough. -/
def Fits (json : Metadata → Except String (List UInt8)) (m : Metadata) : Prop :=
  ∃ data, json m = .ok data ∧ data.length ≤ maxMetadataBytes

/-- The encoding is too large. -/
def Large (json : Metadata → Except String (List UInt8)) (m : Metadata) : Prop :=
  ∃ data, json m = .ok data ∧ maxMetadataBytes < data.length

/-- There is no encoding. -/
def Unencodable (json : Metadata → Except String (List UInt8)) (m : Metadata) : Prop := ∃ e, json m = .error e

theorem Large.not_fits {m : Metadata} (large : Large json m) : ¬ Fits json m := by
  rintro ⟨data, encoded, short⟩
  obtain ⟨other, same, long⟩ := large
  rw [encoded] at same
  cases same
  omega

theorem Unencodable.not_ok {m : Metadata} {data : List UInt8} (unencodable : Unencodable json m) : json m ≠ .ok data := by
  obtain ⟨e, failed⟩ := unencodable
  rw [failed]
  exact fun same => by cases same

/-- The first `k` groups fit, and more of them do not. -/
def LongestFitting (json : Metadata → Except String (List UInt8)) (m : Metadata) (k : ℕ) : Prop :=
  Fits json (m.cut k) ∧ ∀ l, k < l → l ≤ m.identityGroups.length → ¬ Fits json (m.cut l)

/-- `marshal` fails, or returns few enough bytes, which are read back with as many groups as fit. -/
def SizeBounded (json : Metadata → Except String (List UInt8)) (unjson : List UInt8 → Option Metadata) (m : Metadata) : Prop :=
  ∀ data, marshal json m = .ok data →
    data.length ≤ maxMetadataBytes ∧
      ∃ k, k ≤ m.identityGroups.length ∧ LongestFitting json m k ∧ unjson data = some (m.cut k)

/-- The loop leaves off at `l` groups, with encoding `last`. -/
structure Stops (json : Metadata → Except String (List UInt8)) (m : Metadata) (k l : ℕ) (last : List UInt8) : Prop where
  within : l ≤ k
  someLeft : l = 0 → k = 0
  encoded : json (m.cut l) = .ok last
  large : ∀ j, l < j → j ≤ k → Large json (m.cut j)
  ends : last.length ≤ maxMetadataBytes ∨ l ≤ 1

/-- The loop fails if an encoding on the way does. -/
theorem truncate_spec (m : Metadata) {k : ℕ} {data : List UInt8} (encoded : json (m.cut k) = .ok data) :
    (∃ e l, 1 ≤ l ∧ json (m.cut l) = .error e ∧ truncate json m k data = .error e) ∨
      ∃ l last, Stops json m k l last ∧ truncate json m k data = .ok last := by
  have atOnce : (data.length ≤ maxMetadataBytes ∨ k ≤ 1) → Stops json m k k data := fun ends =>
    { within := Nat.le_refl k, someLeft := id, encoded, large := fun j above upTo => by omega, ends }
  induction k generalizing data with
  | zero => exact Or.inr ⟨0, data, atOnce (Or.inr (Nat.zero_le 1)), rfl⟩
  | succ k ih =>
    cases k with
    | zero => exact Or.inr ⟨1, data, atOnce (Or.inr (Nat.le_refl 1)), rfl⟩
    | succ k =>
      rcases Nat.lt_or_ge maxMetadataBytes data.length with long | short
      · cases next : json (m.cut (k + 1)) with
        | error e =>
          refine Or.inl ⟨e, k + 1, by omega, next, ?_⟩
          simp only [truncate, if_pos long, next]
          rfl
        | ok shorter =>
          have goesOn : truncate json m (k + 2) data = truncate json m (k + 1) shorter := by
            conv_lhs => simp only [truncate, if_pos long, next]
            rfl
          rw [goesOn]
          rcases ih next (fun ends =>
            { within := Nat.le_refl _, someLeft := id, encoded := next, large := fun j above upTo => by omega, ends }) with
            failing | ⟨l, last, stops, result⟩
          · exact Or.inl failing
          · refine Or.inr ⟨l, last, ?_, result⟩
            refine ⟨by have := stops.within; omega, fun none => by have := stops.someLeft none; omega, stops.encoded, ?_, stops.ends⟩
            intro j above upTo
            rcases Nat.lt_or_ge (k + 1) j with top | lower
            · obtain rfl : j = k + 2 := by omega
              exact ⟨data, encoded, long⟩
            · exact stops.large j above lower
      · refine Or.inr ⟨k + 2, data, atOnce (Or.inl short), ?_⟩
        simp only [truncate, if_neg (Nat.not_lt.mpr short)]

/-- `marshal` fails if an encoding does, and otherwise cuts the groups down as the loop does. -/
theorem marshal_spec (json : Metadata → Except String (List UInt8)) (m : Metadata) :
    (∃ e k, 1 ≤ k ∧ json (m.cut k) = .error e ∧ marshal json m = .error e) ∨
      ∃ l last, Stops json m m.identityGroups.length l last ∧ marshal json m = .ok last := by
  have cutAll := m.cut_of_le (Nat.le_refl _)
  cases whole : json m with
  | error e =>
    refine Or.inl ⟨e, m.identityGroups.length + 1, by omega, ?_, ?_⟩
    · rw [m.cut_of_le (by omega), whole]
    · simp only [marshal, whole]
      rfl
  | ok data =>
    have encoded : json (m.cut m.identityGroups.length) = .ok data := by rw [cutAll, whole]
    rcases Nat.lt_or_ge maxMetadataBytes data.length with long | short
    · have loops : marshal json m = truncate json m m.identityGroups.length data := by
        conv_lhs => simp only [marshal, whole]
        exact if_pos long
      rw [loops]
      exact truncate_spec m encoded
    · refine Or.inr ⟨m.identityGroups.length, data, ?_, ?_⟩
      · exact ⟨Nat.le_refl _, id, encoded, fun j above upTo => by omega, Or.inl short⟩
      · simp only [marshal, whole]
        exact if_neg (Nat.not_lt.mpr short)

/-- Where the loop has come down to one group, or there was none, it stops at the first group. -/
theorem Stops.first {m : Metadata} {l : ℕ} {last : List UInt8} (stops : Stops json m m.identityGroups.length l last)
    (down : l ≤ 1) : m.cut l = m.cut 1 := by
  rcases Nat.eq_zero_or_pos l with none | some
  · have empty := stops.someLeft none
    rw [m.cut_of_le (by omega), m.cut_of_le (by omega)]
  · obtain rfl : l = 1 := by omega
    rfl

/-- No prefix that is as long as the last one fails to be encoded. -/
theorem Stops.encodable {m : Metadata} {l k : ℕ} {last : List UInt8} (stops : Stops json m m.identityGroups.length l last)
    (longer : l ≤ k) : ¬ Unencodable json (m.cut k) := by
  intro unencodable
  have reached : ∀ j, l ≤ j → j ≤ m.identityGroups.length → ¬ Unencodable json (m.cut j) := by
    intro j above upTo none
    rcases Nat.eq_or_lt_of_le above with rfl | more
    · exact none.not_ok stops.encoded
    · obtain ⟨data, encoded, _⟩ := stops.large j more upTo
      exact none.not_ok encoded
  rcases Nat.le_total k m.identityGroups.length with upTo | beyond
  · exact reached k longer upTo unencodable
  · rw [m.cut_of_le beyond, ← m.cut_of_le (Nat.le_refl _)] at unencodable
    exact reached _ stops.within (Nat.le_refl _) unencodable

/-- With a single group there is nothing to cut. -/
theorem marshal_few {m : Metadata} (few : m.identityGroups.length ≤ 1) : marshal json m = json m := by
  rcases m.marshal_spec json with ⟨e, k, one, failed, result⟩ | ⟨l, last, stops, result⟩
  · rw [result, ← failed, m.cut_of_le (by omega)]
  · have all : m.identityGroups.length ≤ l := by
      rcases Nat.eq_zero_or_pos l with none | some
      · have := stops.someLeft none
        omega
      · omega
    rw [result, ← stops.encoded, m.cut_of_le all]

/-- The size of the metadata is bounded exactly if one identity group (or none, where there is
none) fits; the loop keeps the first group even where it does not. -/
theorem marshal_bounded_iff {unjson : List UInt8 → Option Metadata} (m : Metadata)
    (faithful : ∀ k data, json (m.cut k) = .ok data → unjson data = some (m.cut k))
    (monotone : ∀ j k short long, j ≤ k → json (m.cut j) = .ok short → json (m.cut k) = .ok long → short.length ≤ long.length) :
    SizeBounded json unjson m ↔ Fits json (m.cut 1) ∨ ∃ k, 1 ≤ k ∧ Unencodable json (m.cut k) := by
  constructor
  · intro bounded
    rcases m.marshal_spec json with ⟨e, k, one, failed, _⟩ | ⟨l, last, stops, result⟩
    · exact Or.inr ⟨k, one, e, failed⟩
    have short := (bounded last result).1
    cases first : json (m.cut 1) with
    | error e => exact Or.inr ⟨1, Nat.le_refl 1, e, first⟩
    | ok data =>
      refine Or.inl ⟨data, first, ?_⟩
      rcases Nat.le_total l 1 with down | more
      · have same := stops.encoded
        rw [stops.first down, first] at same
        cases same
        exact short
      · exact Nat.le_trans (monotone 1 l data last more first stops.encoded) short
  · intro holds data returned
    rcases m.marshal_spec json with ⟨e, k, _, _, failed⟩ | ⟨l, last, stops, result⟩
    · rw [failed] at returned
      cases returned
    obtain rfl := Except.ok.inj (result.symm.trans returned)
    have short : last.length ≤ maxMetadataBytes := by
      rcases stops.ends with short | down
      · exact short
      rcases holds with ⟨data, first, short⟩ | ⟨k, one, unencodable⟩
      · have same := stops.encoded
        rw [stops.first down, first] at same
        cases same
        exact short
      · exact absurd unencodable (stops.encodable (by omega))
    refine ⟨short, l, stops.within, ⟨⟨last, stops.encoded, short⟩, ?_⟩, faithful l last stops.encoded⟩
    intro j above upTo
    exact (stops.large j above upTo).not_fits

/-- The encoding where no identity group needs an escape. -/
def plain (m : Metadata) : List UInt8 :=
  let quoted := m.identityGroups.map (fun g => '"' :: g.toList ++ ['"'])
  let groups := if m.identityGroups = [] then [] else ",\"ig\":[".toList ++ [','].intercalate quoted ++ [']']
  let text := "\x7b\"r\":".toList ++ (Nat.repr m.role.toNat).toList ++ groups ++ ",\"ar\":".toList ++
    (Nat.repr m.activeRequests.toNat).toList ++ ",\"rh\":".toList ++ (Nat.repr m.regionHint.toNat).toList ++ ['}']
  text.map (fun c => UInt8.ofNat c.toNat)

/-- A reader that knows the prefixes of one value. -/
def reader (m : Metadata) (data : List UInt8) : Option Metadata :=
  ((List.range (m.identityGroups.length + 1)).map m.cut).find? (fun cut => plain cut = data)

section Plain

theorem intercalate_eq (items : List (List Char)) : [','].intercalate items = Wire.commas items := by
  induction items with
  | nil => rfl
  | cons item rest ih =>
    cases rest with
    | nil => exact List.intercalate_singleton
    | cons next rest => rw [List.intercalate_cons_cons, ih, Wire.commas_cons item (List.cons_ne_nil _ _), List.append_assoc, List.singleton_append]

/-- Each identity group takes its own length, two quotes and a comma. -/
theorem plain_length (m : Metadata) : (plain m).length =
    18 + (Nat.repr m.role.toNat).toList.length + (Nat.repr m.activeRequests.toNat).toList.length + (Nat.repr m.regionHint.toNat).toList.length +
      if m.identityGroups = [] then 0 else 7 + (m.identityGroups.map (fun g => g.length + 3)).sum := by
  have texts : "\x7b\"r\":".toList.length = 5 ∧ ",\"ig\":[".toList.length = 7 ∧ ",\"ar\":".toList.length = 6 ∧ ",\"rh\":".toList.length = 6 :=
    ⟨rfl, rfl, rfl, rfl⟩
  unfold plain
  rw [List.length_map]
  generalize (Nat.repr m.role.toNat).toList = r
  generalize (Nat.repr m.activeRequests.toNat).toList = q
  generalize (Nat.repr m.regionHint.toNat).toList = h
  simp only [List.length_append, List.length_cons, List.length_nil, texts, intercalate_eq]
  split_ifs with none
  · simp only [List.length_nil]
    omega
  · have quoted := Wire.commas_length (fun nil => none (List.map_eq_nil_iff.mp nil) : m.identityGroups.map (fun g => '"' :: g.toList ++ ['"']) ≠ [])
    have each : (fun g : String => ('"' :: g.toList ++ ['"']).length + 1) = fun g => g.length + 3 := by
      funext g
      simp only [List.length_append, List.length_cons, List.length_nil, String.length_toList]
    simp only [List.map_map, Function.comp_def, each] at quoted
    simp only [List.length_append, List.length_cons, List.length_nil, texts]
    omega

variable {m : Metadata}

/-- With each group more the encoding grows. -/
theorem plain_cut_lt {j l : ℕ} (less : j < l) (within : l ≤ m.identityGroups.length) :
    (plain (m.cut j)).length < (plain (m.cut l)).length := by
  obtain ⟨d, rfl⟩ : ∃ d, l = j + (d + 1) := ⟨l - j - 1, by omega⟩
  have later : m.identityGroups.take (j + (d + 1)) =
      m.identityGroups.take j ++ m.identityGroups[j] :: (m.identityGroups.drop (j + 1)).take d := by
    rw [List.take_add, List.drop_eq_getElem_cons (by omega), List.take_succ_cons]
  have some : (m.cut (j + (d + 1))).identityGroups ≠ [] := by
    simp only [cut, later]
    exact List.append_ne_nil_of_right_ne_nil _ (List.cons_ne_nil _ _)
  rw [plain_length, plain_length, if_neg some]
  by_cases none : (m.cut j).identityGroups = []
  · rw [if_pos none]
    simp only [cut]
    omega
  · rw [if_neg none]
    simp only [cut, later, List.map_append, List.sum_append, List.map_cons, List.sum_cons]
    omega

theorem plain_monotone {j l : ℕ} (less : j ≤ l) : (plain (m.cut j)).length ≤ (plain (m.cut l)).length := by
  rw [m.cut_min j, m.cut_min l]
  by_cases same : min j m.identityGroups.length = min l m.identityGroups.length
  · exact Nat.le_of_eq (congrArg (fun k => (plain (m.cut k)).length) same)
  · exact Nat.le_of_lt (plain_cut_lt (by omega) (Nat.min_le_right _ _))

theorem reader_faithful (k : ℕ) : reader m (plain (m.cut k)) = some (m.cut k) := by
  rw [cut_min]
  have upTo : min k m.identityGroups.length ≤ m.identityGroups.length := Nat.min_le_right _ _
  generalize min k m.identityGroups.length = j at upTo
  cases found : reader m (plain (m.cut j)) with
  | none =>
    have unmet := List.find?_eq_none.mp found (m.cut j) (List.mem_map_of_mem (List.mem_range.mpr (by omega)))
    simp at unmet
  | some cut =>
    have met := List.find?_some found
    obtain ⟨l, inRange, rfl⟩ := List.mem_map.mp (List.mem_of_find?_eq_some found)
    rw [List.mem_range] at inRange
    have size := congrArg List.length (of_decide_eq_true met)
    rcases Nat.lt_trichotomy l j with before | rfl | after
    · exact absurd size (Nat.ne_of_lt (plain_cut_lt before upTo))
    · rfl
    · exact absurd size (Nat.ne_of_gt (plain_cut_lt after (show l ≤ m.identityGroups.length by omega)))

end Plain

def worker (groups : List String) : Metadata := { role := 1, identityGroups := groups, activeRequests := 0, regionHint := 0 }

def long (n : ℕ) : String := String.ofList (List.replicate n 'a')

example : plain (worker ["model=a", "model=b"]) =
    "\x7b\"r\":1,\"ig\":[\"model=a\",\"model=b\"],\"ar\":0,\"rh\":0\x7d".toUTF8.toList := by decide +kernel

theorem long_length (n : ℕ) : (long n).length = n := by
  rw [long, ← String.length_toList, String.toList_ofList, List.length_replicate]

theorem worker_length (g : String) : (plain (worker [g])).length = 31 + g.length := by
  have digits : (Nat.repr 0).toList.length = 1 ∧ (Nat.repr 1).toList.length = 1 := ⟨rfl, rfl⟩
  rw [plain_length, if_neg (show (worker [g]).identityGroups ≠ [] from List.cons_ne_nil _ _)]
  simp only [worker, List.map_cons, List.map_nil, List.sum_cons, List.sum_nil, UInt8.reduceToNat, UInt16.reduceToNat, digits]
  omega

/-- Of two groups that are too much together the first one is kept. -/
theorem marshal_bounded_two :
    SizeBounded (fun m => .ok (plain m)) (reader (worker [long 150, long 150])) (worker [long 150, long 150]) := by
  have short : (plain (worker [long 150])).length ≤ maxMetadataBytes := by
    rw [worker_length, long_length]
    decide
  refine (marshal_bounded_iff (worker [long 150, long 150]) ?_ ?_).mpr (Or.inl ⟨plain (worker [long 150]), rfl, short⟩)
  · rintro k _ ⟨⟩
    exact reader_faithful k
  · rintro j k _ _ less ⟨⟩ ⟨⟩
    exact plain_monotone less

/-- A group of 250 letters is kept although it makes the metadata 281 bytes long. -/
theorem marshal_oversized :
    ¬ ∀ (json : Metadata → Except String (List UInt8)) (unjson : List UInt8 → Option Metadata) (m : Metadata),
      (∀ k data, json (m.cut k) = .ok data → unjson data = some (m.cut k)) →
      (∀ j k short long, j ≤ k → json (m.cut j) = .ok short → json (m.cut k) = .ok long → short.length ≤ long.length) →
      SizeBounded json unjson m := by
  intro always
  have bounded := always (fun m => .ok (plain m)) (reader (worker [long 250])) (worker [long 250])
    (by
      rintro k _ ⟨⟩
      exact reader_faithful k)
    (by
      rintro j k _ _ less ⟨⟩ ⟨⟩
      exact plain_monotone less)
  have short := (bounded _ (marshal_few (Nat.le_refl 1))).1
  rw [worker_length, long_length] at short
  revert short
  decide

end Metadata

end OpenTela.Swim
