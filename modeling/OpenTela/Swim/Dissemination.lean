import OpenTela.Lib.Batch
import Mathlib.Data.List.Sort
import Mathlib.Data.Prod.Lex

namespace OpenTela.Swim

abbrev PeerID : Type := String

/-- Any other code of a status that comes in counts as `unknown`. -/
inductive MemberStatus where
  | join
  | alive
  | suspect
  | dead
  | unknown
  deriving DecidableEq

def statusPriority : MemberStatus → ℕ
  | .dead => 4
  | .suspect => 3
  | .alive => 2
  | .join => 1
  | .unknown => 0

/-- Numbers on the wire have 64 bits; this is one more than the greatest. -/
def wordSize : ℕ := 18446744073709551616

structure MemberEvent where
  peer : PeerID
  status : MemberStatus
  incarnation : ℕ := 0
  /-- `Meta`: the bytes of the metadata, in the form in which they came -/
  metadata : List UInt8 := []
  deriving DecidableEq

/-- Incarnation first, then status. -/
def rank (incarnation : ℕ) (status : MemberStatus) : ℕ ×ₗ ℕ := toLex (incarnation, statusPriority status)

/-- The rule of the buffer and of the table alike: an event is passed over when its incarnation is
lower, or the same and its status has no higher priority. -/
def MemberEvent.superseded (e : MemberEvent) (incarnation : ℕ) (status : MemberStatus) : Bool :=
  decide (e.incarnation < incarnation) ||
    (decide (e.incarnation = incarnation) && decide (statusPriority e.status ≤ statusPriority status))

theorem rank_le {i j : ℕ} {a b : MemberStatus} :
    rank i a ≤ rank j b ↔ i < j ∨ (i = j ∧ statusPriority a ≤ statusPriority b) :=
  Prod.Lex.toLex_le_toLex

theorem MemberEvent.superseded_iff {e : MemberEvent} {incarnation : ℕ} {status : MemberStatus} :
    e.superseded incarnation status = true ↔ rank e.incarnation e.status ≤ rank incarnation status := by
  simp only [superseded, rank_le, Bool.or_eq_true, Bool.and_eq_true, decide_eq_true_eq]

/-- A list in the order some chance puts it in, as a map is traversed or a slice is shuffled. -/
def ordered {α : Type} (chance : α → ℕ) (l : List α) : List α := l.insertionSort (fun a b => chance a ≤ chance b)

@[simp] theorem mem_ordered {α : Type} {chance : α → ℕ} {l : List α} {a : α} : a ∈ ordered chance l ↔ a ∈ l :=
  (List.perm_insertionSort _ l).mem_iff

theorem ordered_nodup {α : Type} {chance : α → ℕ} {l : List α} (distinct : l.Nodup) : (ordered chance l).Nodup :=
  (List.perm_insertionSort _ l).nodup_iff.mpr distinct

structure DisseminationEntry where
  event : MemberEvent
  remaining : ℤ

/-- The piggyback buffer. `retransmitLimit` is `int(lambda * log2(n))`, reckoned in floating point. -/
structure Disseminator where
  entries : Store PeerID DisseminationEntry
  retransmitLimit : ℕ → ℤ
  n : ℕ

namespace Disseminator

def new (retransmitLimit : ℕ → ℤ) (n : ℕ) : Disseminator := { entries := ∅, retransmitLimit, n := if n < 2 then 2 else n }

def updateN (d : Disseminator) (n : ℕ) : Disseminator := { d with n := if n < 2 then 2 else n }

def enqueue (d : Disseminator) (e : MemberEvent) : Disseminator :=
  let added : Disseminator := { d with entries := d.entries.insert e.peer { event := e, remaining := d.retransmitLimit d.n } }
  match d.entries.lookup e.peer with
  | some existing => if e.superseded existing.event.incarnation existing.event.status then d else added
  | none => added

/-- The loop of `getPiggyback` over the entries: the events taken and the peers whose entry is spent. -/
def gather (maxEvents : ℕ) :
    List PeerID → List MemberEvent → List PeerID → Store PeerID DisseminationEntry →
      List MemberEvent × List PeerID × Store PeerID DisseminationEntry
  | [], events, expired, entries => (events, expired, entries)
  | pid :: rest, events, expired, entries =>
    if maxEvents ≤ events.length then (events, expired, entries)
    else
      match entries.lookup pid with
      | none => gather maxEvents rest events expired entries
      | some entry =>
        if entry.remaining ≤ 0 then gather maxEvents rest events (expired ++ [pid]) entries
        else
          gather maxEvents rest (events ++ [entry.event]) expired
            (entries.insert pid { entry with remaining := entry.remaining - 1 })

def getPiggyback (order : PeerID → ℕ) (maxEvents : ℕ) (d : Disseminator) : List MemberEvent × Disseminator :=
  let (events, expired, entries) := gather maxEvents (ordered order d.entries.keys) [] [] d.entries
  (events, { d with entries := expired.foldl (fun entries pid => entries.erase pid) entries })

/-- The event under which a peer is spread at the moment. -/
def spreads (d : Disseminator) (p : PeerID) : Option MemberEvent := (d.entries.lookup p).map DisseminationEntry.event

/-- What is spread about the peer of an event afterwards: the event, unless it is superseded by
what was spread before. -/
theorem spreads_enqueue (d : Disseminator) (e : MemberEvent) :
    (d.enqueue e).spreads e.peer =
      if ∃ existing, d.spreads e.peer = some existing ∧ e.superseded existing.incarnation existing.status = true
      then d.spreads e.peer else some e := by
  have added : ∀ entry, entry.event = e →
      ({ d with entries := d.entries.insert e.peer entry } : Disseminator).spreads e.peer = some e := by
    intro entry same
    simp only [spreads, AList.lookup_insert, Option.map_some, same]
  unfold enqueue
  dsimp only
  cases found : d.entries.lookup e.peer with
  | none =>
    have nothing : d.spreads e.peer = none := by simp only [spreads, found, Option.map_none]
    rw [nothing, if_neg (by rintro ⟨existing, none, _⟩; cases none)]
    exact added _ rfl
  | some entry =>
    have something : d.spreads e.peer = some entry.event := by simp only [spreads, found, Option.map_some]
    dsimp only
    by_cases old : e.superseded entry.event.incarnation entry.event.status = true
    · rw [if_pos old, if_pos ⟨entry.event, something, old⟩]
    · rw [if_neg old, if_neg]
      · exact added _ rfl
      · rintro ⟨existing, found, superseded⟩
        rw [something] at found
        cases found
        exact old superseded

end Disseminator

end OpenTela.Swim
