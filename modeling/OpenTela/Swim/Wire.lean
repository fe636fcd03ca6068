import OpenTela.Swim.Network
import Mathlib.Algebra.Order.BigOperators.Group.List
import Mathlib.Data.Nat.Digits.Lemmas

namespace OpenTela.Swim

/-- The digits of `base64.StdEncoding`. -/
def base64Digit (n : ℕ) : Char :=
  "ABCDEFGHIJKLMNOPQRSTUVWXYZabcdefghijklmnopqrstuvwxyz0123456789+/".toList.getD n '='

/-- `base64.StdEncoding`: four characters for each three bytes, with padding. -/
def base64 : List UInt8 → List Char
  | [] => []
  | [a] => [base64Digit (a.toNat / 4), base64Digit (a.toNat % 4 * 16), '=', '=']
  | [a, b] => [base64Digit (a.toNat / 4), base64Digit (a.toNat % 4 * 16 + b.toNat / 16), base64Digit (b.toNat % 16 * 4), '=']
  | a :: b :: c :: rest =>
    base64Digit (a.toNat / 4) :: base64Digit (a.toNat % 4 * 16 + b.toNat / 16) ::
      base64Digit (b.toNat % 16 * 4 + c.toNat / 64) :: base64Digit (c.toNat % 64) :: base64 rest

example : base64 "Man".toUTF8.data.toList = "TWFu".toList ∧ base64 "Ma".toUTF8.data.toList = "TWE=".toList := by decide +kernel

theorem base64_length (bytes : List UInt8) : (base64 bytes).length = 4 * ((bytes.length + 2) / 3) := by
  induction bytes using base64.induct with
  | case1 => rfl
  | case2 a => simp [base64]
  | case3 a b => simp [base64]
  | case4 a b c rest ih =>
    simp only [base64, List.length_cons, ih]
    omega

/-- The bytes of a peer's id. -/
def PeerID.bytes (p : PeerID) : List UInt8 := p.toUTF8.data.toList

def MessageType.code : MessageType → ℕ
  | ping => 1
  | ack => 2
  | pingReq => 3
  | unknown => 0

def MemberStatus.code : MemberStatus → ℕ
  | join => 1
  | alive => 2
  | suspect => 3
  | dead => 4
  | unknown => 0

namespace Wire

def text (s : String) : List Char := s.toList

def number (n : ℕ) : List Char := Nat.toDigits 10 n

def quoted (bytes : List UInt8) : List Char := '"' :: base64 bytes ++ ['"']

def commas : List (List Char) → List Char
  | [] => []
  | [item] => item
  | item :: rest => item ++ ',' :: commas rest

end Wire

open Wire

/-- `MemberEvent.MarshalJSON`. -/
def MemberEvent.json (e : MemberEvent) : List Char :=
  text "\x7b\"peer\":" ++ quoted (PeerID.bytes e.peer) ++ text ",\"status\":" ++ number e.status.code ++
    text ",\"incarnation\":" ++ number e.incarnation ++
    (if e.metadata = [] then [] else text ",\"meta\":" ++ quoted e.metadata) ++ ['}']

/-- The JSON text of a message. -/
def Message.json (m : Message) : List Char :=
  text "\x7b\"type\":" ++ number m.type.code ++ text ",\"seq\":" ++ number m.seq ++
    (if PeerID.bytes m.target = [] then [] else text ",\"target\":" ++ quoted (PeerID.bytes m.target)) ++
    (if m.events = [] then [] else text ",\"events\":[" ++ commas (m.events.map MemberEvent.json) ++ [']']) ++ ['}']

/-- A number in four bytes, the highest first. -/
def bigEndian (n : ℕ) : List UInt8 := [UInt8.ofNat (n / 2 ^ 24), UInt8.ofNat (n / 2 ^ 16), UInt8.ofNat (n / 2 ^ 8), UInt8.ofNat n]

def Message.marshal (m : Message) : List UInt8 :=
  let data := m.json.map (fun c => UInt8.ofNat c.toNat)
  bigEndian data.length ++ data

/-- The receiver reads no further. -/
def readLimit : ℕ := 64 * 1024

/-- Like `Message.Unmarshal`, with the JSON decoder as a parameter. -/
def Message.unmarshal (unjson : List UInt8 → Except String Message) (data : List UInt8) : Except String Message :=
  match data with
  | a :: b :: c :: d :: rest =>
    let length := ((a.toNat * 256 + b.toNat) * 256 + c.toNat) * 256 + d.toNat
    if rest.length < length then .error s!"message length mismatch: header says {length}, have {rest.length}"
    else unjson (rest.take length)
  | short => .error s!"message too short: {short.length} bytes"

/-- A receiver that reads all of it. -/
def Message.Fits (m : Message) : Prop := m.marshal.length ≤ readLimit

instance (m : Message) : Decidable m.Fits := inferInstanceAs (Decidable (_ ≤ _))

theorem Message.marshal_length (m : Message) : m.marshal.length = 4 + m.json.length := by
  simp only [marshal, bigEndian, List.length_append, List.length_cons, List.length_nil, List.length_map]

theorem bigEndian_read {n : ℕ} (word : n < 2 ^ 32) :
    (((UInt8.ofNat (n / 2 ^ 24)).toNat * 256 + (UInt8.ofNat (n / 2 ^ 16)).toNat) * 256 + (UInt8.ofNat (n / 2 ^ 8)).toNat) * 256 +
      (UInt8.ofNat n).toNat = n := by
  simp only [UInt8.toNat_ofNat']
  omega

/-- What a receiver makes of a message: it decodes all of the text, if the message fits, and
otherwise it finds the length to be wrong. -/
theorem Message.unmarshal_marshal (m : Message) (unjson : List UInt8 → Except String Message) (word : m.json.length < 2 ^ 32) :
    unmarshal unjson (m.marshal.take readLimit) =
      if m.Fits then unjson (m.json.map (fun c => UInt8.ofNat c.toNat))
      else .error s!"message length mismatch: header says {m.json.length}, have {readLimit - 4}" := by
  have size := m.marshal_length
  have limit : readLimit = 65536 := rfl
  have taken : m.marshal.take readLimit =
      bigEndian m.json.length ++ (m.json.map (fun c => UInt8.ofNat c.toNat)).take (readLimit - 4) := by
    simp only [marshal, List.length_map]
    rfl
  rw [taken]
  simp only [unmarshal, bigEndian, List.cons_append, List.nil_append, bigEndian_read word, List.length_take, List.length_map]
  by_cases fits : m.Fits
  · have whole : m.marshal.length ≤ readLimit := fits
    have all : min (readLimit - 4) m.json.length = m.json.length := by omega
    rw [if_pos fits, all, if_neg (Nat.lt_irrefl _), List.take_of_length_le, List.take_of_length_le]
    · simp only [List.length_map]
      omega
    · simp only [List.length_take, List.length_map]
      omega
  · have long : readLimit < m.marshal.length := Nat.lt_of_not_le fits
    have cut : min (readLimit - 4) m.json.length = readLimit - 4 := by omega
    rw [if_neg fits, cut, if_pos (by omega)]

namespace Wire

theorem quoted_length (bytes : List UInt8) : (quoted bytes).length = 2 + 4 * ((bytes.length + 2) / 3) := by
  simp only [quoted, List.length_cons, List.length_append, List.length_nil, base64_length]
  omega

theorem number_length {n : ℕ} (word : n < wordSize) : (number n).length ≤ 20 :=
  Nat.toDigits_length 10 n 20 (by omega) (word.trans (by decide))

theorem commas_cons (item : List Char) {rest : List (List Char)} (some : rest ≠ []) :
    commas (item :: rest) = item ++ ',' :: commas rest := by
  cases rest with
  | nil => exact absurd rfl some
  | cons => rfl

/-- There is a comma after each item but the last. -/
theorem commas_length {items : List (List Char)} (some : items ≠ []) :
    (commas items).length + 1 = (items.map (fun item => item.length + 1)).sum := by
  induction items with
  | nil => exact absurd rfl some
  | cons item rest ih =>
    by_cases last : rest = []
    · subst last
      rfl
    · rw [commas_cons item last, List.map_cons, List.sum_cons, ← ih last]
      simp only [List.length_append, List.length_cons]
      omega

theorem commas_length_perm {items more : List (List Char)} (perm : items.Perm more) : (commas items).length = (commas more).length := by
  by_cases none : items = []
  · subst none
    rw [perm.nil_eq]
  · have counted := commas_length none
    have counted' := commas_length (fun nil : more = [] => none (nil ▸ perm).eq_nil)
    have same := (perm.map (fun item => item.length + 1)).sum_eq
    omega

theorem commas_append_le (items more : List (List Char)) : (commas items).length ≤ (commas (items ++ more)).length := by
  induction items with
  | nil => exact Nat.zero_le _
  | cons item rest ih =>
    by_cases last : rest = []
    · subst last
      cases more with
      | nil => exact Nat.le_refl _
      | cons => simp [commas]
    · rw [List.cons_append, commas_cons item last, commas_cons item (List.append_ne_nil_of_left_ne_nil last more)]
      simp only [List.length_append, List.length_cons]
      omega

end Wire

theorem MessageType.code_length (t : MessageType) : (number t.code).length = 1 := by
  cases t <;> rfl

theorem MemberStatus.code_length (s : MemberStatus) : (number s.code).length = 1 := by
  cases s <;> rfl

theorem MemberEvent.json_length (e : MemberEvent) : e.json.length =
    37 + 4 * (((PeerID.bytes e.peer).length + 2) / 3) + (number e.incarnation).length +
      if e.metadata = [] then 0 else 10 + 4 * ((e.metadata.length + 2) / 3) := by
  have texts : (text "\x7b\"peer\":").length = 8 ∧ (text ",\"status\":").length = 10 ∧ (text ",\"incarnation\":").length = 15 ∧
      (text ",\"meta\":").length = 8 := by decide
  simp only [json, List.length_append, quoted_length, MemberStatus.code_length, List.length_cons, List.length_nil, texts]
  split_ifs
  · simp only [List.length_nil]
    omega
  · simp only [List.length_append, quoted_length, texts]
    omega

theorem Message.marshal_length_eq (m : Message) : m.marshal.length =
    21 + (number m.seq).length +
      (if PeerID.bytes m.target = [] then 0 else 12 + 4 * (((PeerID.bytes m.target).length + 2) / 3)) +
      if m.events = [] then 0 else 12 + (commas (m.events.map MemberEvent.json)).length := by
  have texts : (text "\x7b\"type\":").length = 8 ∧ (text ",\"seq\":").length = 7 ∧ (text ",\"target\":").length = 10 ∧
      (text ",\"events\":[").length = 11 := by decide
  rw [marshal_length]
  simp only [json, List.length_append, MessageType.code_length, List.length_cons, List.length_nil, texts, apply_ite List.length,
    quoted_length]
  split_ifs
  · omega
  · omega
  · omega
  · omega

/-- An event whose peer's id and whose metadata are no longer than this. -/
structure MemberEvent.Short (idBytes metaBytes : ℕ) (e : MemberEvent) : Prop where
  peer : (PeerID.bytes e.peer).length ≤ idBytes
  incarnation : e.incarnation < wordSize
  metadata : e.metadata.length ≤ metaBytes

section Lengths

variable {idBytes metaBytes : ℕ}

theorem MemberEvent.Short.json_length_le {e : MemberEvent} (short : e.Short idBytes metaBytes) :
    e.json.length ≤ 67 + 4 * ((idBytes + 2) / 3) + 4 * ((metaBytes + 2) / 3) := by
  have digits := number_length short.incarnation
  have peer := short.peer
  have metadata := short.metadata
  rw [json_length]
  split_ifs
  · omega
  · omega

theorem commas_short {events : List MemberEvent} (short : ∀ e ∈ events, e.Short idBytes metaBytes) :
    (commas (events.map MemberEvent.json)).length ≤ events.length * (68 + 4 * ((idBytes + 2) / 3) + 4 * ((metaBytes + 2) / 3)) := by
  have each : ∀ n ∈ (events.map MemberEvent.json).map (fun item => item.length + 1),
      n ≤ 68 + 4 * ((idBytes + 2) / 3) + 4 * ((metaBytes + 2) / 3) := by
    intro n member
    obtain ⟨item, inside, rfl⟩ := List.mem_map.mp member
    obtain ⟨e, here, rfl⟩ := List.mem_map.mp inside
    have := (short e here).json_length_le
    omega
  have total := List.sum_le_card_nsmul _ _ each
  by_cases none : events = []
  · subst none
    exact Nat.zero_le _
  · have counted := commas_length (fun nil => none (List.map_eq_nil_iff.mp nil) : events.map MemberEvent.json ≠ [])
    have bound : (commas (events.map MemberEvent.json)).length + 1 ≤
        events.length * (68 + 4 * ((idBytes + 2) / 3) + 4 * ((metaBytes + 2) / 3)) := by
      rw [counted]
      simpa using total
    omega

/-- The longest message: with a target and five events. -/
theorem Message.marshal_length_le {m : Message} (seq : m.seq < wordSize) (target : (PeerID.bytes m.target).length ≤ idBytes)
    (few : m.events.length ≤ 5) (short : ∀ e ∈ m.events, e.Short idBytes metaBytes) :
    m.marshal.length ≤ 405 + 6 * (4 * ((idBytes + 2) / 3)) + 5 * (4 * ((metaBytes + 2) / 3)) := by
  have digits := number_length seq
  have events := commas_short short
  have bounded : m.events.length * (68 + 4 * ((idBytes + 2) / 3) + 4 * ((metaBytes + 2) / 3)) ≤
      5 * (68 + 4 * ((idBytes + 2) / 3) + 4 * ((metaBytes + 2) / 3)) := Nat.mul_le_mul_right _ few
  rw [marshal_length_eq]
  split_ifs
  · omega
  · omega
  · omega
  · omega

/-- More events make a message longer. -/
theorem Message.marshal_length_append (m : Message) (events more : List MemberEvent) :
    ({ m with events := events } : Message).marshal.length ≤ ({ m with events := events ++ more } : Message).marshal.length := by
  have longer := commas_append_le (events.map MemberEvent.json) (more.map MemberEvent.json)
  rw [← List.map_append] at longer
  simp only [marshal_length_eq]
  by_cases nothing : events = []
  · rw [if_pos nothing]
    omega
  · rw [if_neg nothing, if_neg (List.append_ne_nil_of_left_ne_nil nothing more)]
    omega

theorem Message.marshal_length_perm (m : Message) {events events' : List MemberEvent} (perm : events.Perm events') :
    ({ m with events := events } : Message).marshal.length = ({ m with events := events' } : Message).marshal.length := by
  have same := commas_length_perm (perm.map MemberEvent.json)
  have none : events = [] ↔ events' = [] := by
    constructor
    · rintro rfl
      exact perm.nil_eq.symm
    · rintro rfl
      exact perm.eq_nil
  simp only [marshal_length_eq]
  by_cases nothing : events = []
  · rw [if_pos nothing, if_pos (none.mp nothing)]
  · rw [if_neg nothing, if_neg (fun nil => nothing (none.mpr nil)), same]

end Lengths

end OpenTela.Swim
