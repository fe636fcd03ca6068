import OpenTela.Lib.Separated
import OpenTela.NodeTable.Json
import OpenTela.Usage.Aggregates
import OpenTela.Usage.Extractor
import OpenTela.Usage.Reconciler
import Mathlib.Data.List.Sort
import Mathlib.Data.String.Basic

namespace OpenTela.Usage

inductive UsageField where
  | requestID | service | consumerPeer | providerPeer | metricName | metricValue | timestamp | signature
  deriving DecidableEq

/-- The fields carry no tags. -/
def UsageField.tags : List (String × UsageField) :=
  [("RequestID", .requestID), ("Service", .service), ("ConsumerPeer", .consumerPeer), ("ProviderPeer", .providerPeer),
    ("MetricName", .metricName), ("MetricValue", .metricValue), ("Timestamp", .timestamp), ("Signature", .signature)]

def UsageRecord.toJson (r : UsageRecord) : Json :=
  .obj [("RequestID", .str r.requestID), ("Service", .str r.service), ("ConsumerPeer", .str r.consumerPeer),
    ("ProviderPeer", .str r.providerPeer), ("MetricName", .str r.metricName), ("MetricValue", .num r.metricValue.toInt),
    ("Timestamp", .num r.timestamp.toInt), ("Signature", .str r.signature)]

def UsageField.set (r : UsageRecord) (j : Json) : UsageField → UsageRecord
  | .requestID => { r with requestID := j.toStr r.requestID }
  | .service => { r with service := j.toStr r.service }
  | .consumerPeer => { r with consumerPeer := j.toStr r.consumerPeer }
  | .providerPeer => { r with providerPeer := j.toStr r.providerPeer }
  | .metricName => { r with metricName := j.toStr r.metricName }
  | .metricValue => { r with metricValue := .ofInt (j.toInt r.metricValue.toInt) }
  | .timestamp => { r with timestamp := .ofInt (j.toInt r.timestamp.toInt) }
  | .signature => { r with signature := j.toStr r.signature }

/-- The values that a field takes without an error. -/
def UsageField.takes : UsageField → Json → Bool
  | _, .null => true
  | .metricValue, .num n | .timestamp, .num n => decide (-2 ^ 63 ≤ n ∧ n < 2 ^ 63)
  | .metricValue, _ | .timestamp, _ => false
  | _, .str _ => true
  | _, _ => false

/-- `json.Unmarshal` into a zero record. -/
def UsageRecord.unmarshal : Json → Option UsageRecord
  | .null => some ⟨"", "", "", "", "", 0, 0, ""⟩
  | .obj members =>
    if members.all (fun m => (Json.fieldNamed UsageField.tags m.1).elim true (fun f => f.takes m.2)) then
      some (Json.toStruct UsageField.tags UsageField.set ⟨"", "", "", "", "", 0, 0, ""⟩ (.obj members))
    else none
  | _ => none

/-- The database, each value as what its JSON text stands for. -/
abbrev UsageStore := Store String Json

def recordKey (requestID metricName : String) : String := "record/" ++ requestID ++ "/" ++ metricName

def UsageRecord.key (r : UsageRecord) : String × String := (r.requestID, r.metricName)

/-- The transactions that write. -/
inductive UsageOp where
  | saveRecord (record : UsageRecord)
  | markAggregated (records : List UsageRecord)
  | saveAggregate (agg : AggregatedUsage)

/-- The writes of a transaction. -/
def UsageOp.writes : UsageOp → Batch String Json
  | .saveRecord r => Batch.put [] (recordKey r.requestID r.metricName) r.toJson
  | .markAggregated records => records.foldl (fun txn r => txn.delete (recordKey r.requestID r.metricName)) []
  | .saveAggregate agg =>
    Batch.put [] (aggregateName agg) (OpenTela.AggregatedUsage.toJson
      ⟨agg.peerID, agg.service, agg.metricName, agg.totalValue.toInt, agg.recordCount.toInt, agg.windowStart.toInt,
        agg.windowEnd.toInt, ""⟩)

/-- A transaction that fails to commit returns its error and changes nothing. -/
def UsageStore.update (db : UsageStore) (op : UsageOp) (commits : Bool) : UsageStore :=
  if commits then op.writes.apply db else db

def UsageStore.run (db : UsageStore) (ops : List (UsageOp × Bool)) : UsageStore := ops.foldl (fun db op => db.update op.1 op.2) db

def getRecord (db : UsageStore) (requestID metricName : String) : Option UsageRecord :=
  (db.lookup (recordKey requestID metricName)).bind UsageRecord.unmarshal

/-- The values of the keys with a prefix, in the order of the keys. On UTF-8 the order of the bytes is that of the
characters. -/
def iterate (db : UsageStore) (start : String) : List Json :=
  ((db.keys.filter (fun key => start.toList.isPrefixOf key.toList)).insertionSort (· ≤ ·)).filterMap db.lookup

/-- The records that meet the criteria, up to the first value that is no record. -/
def getPendingRecords.loop (consumer provider service metric : String) : List Json → List UsageRecord × Bool
  | [] => ([], true)
  | value :: rest =>
    match UsageRecord.unmarshal value with
    | none => ([], false)
    | some r =>
      let (records, ok) := getPendingRecords.loop consumer provider service metric rest
      if r.consumerPeer = consumer ∧ r.providerPeer = provider ∧ r.service = service ∧ r.metricName = metric then (r :: records, ok)
      else (records, ok)

/-- The records, and whether no error came with them. -/
def getPendingRecords (db : UsageStore) (consumer provider service metric : String) : List UsageRecord × Bool :=
  getPendingRecords.loop consumer provider service metric (iterate db "record/")

section Codec

open Json

theorem usageField_named : ∀ f ∈ UsageField.tags, fieldNamed UsageField.tags f.1 = some f.2 := by decide

theorem int64_range (n : Int64) : -2 ^ 63 ≤ n.toInt ∧ n.toInt < 2 ^ 63 := by
  have low := n.le_toInt
  have high := n.toInt_lt
  omega

theorem UsageRecord.unmarshal_toJson (r : UsageRecord) : unmarshal r.toJson = some r := by
  have value := int64_range r.metricValue
  have time := int64_range r.timestamp
  have taken : ∀ name f j, (name, f) ∈ UsageField.tags → f.takes j = true →
      (fieldNamed UsageField.tags name).elim true (fun f => f.takes j) = true := by
    intro name f j tag takes
    rw [usageField_named (name, f) tag]
    exact takes
  rw [toJson, unmarshal, if_pos]
  · refine congrArg some ?_
    simp only [toStruct, List.foldl_cons, List.foldl_nil]
    rw [member_tag usageField_named _ "RequestID" _ .requestID (by decide),
      member_tag usageField_named _ "Service" _ .service (by decide),
      member_tag usageField_named _ "ConsumerPeer" _ .consumerPeer (by decide),
      member_tag usageField_named _ "ProviderPeer" _ .providerPeer (by decide),
      member_tag usageField_named _ "MetricName" _ .metricName (by decide),
      member_tag usageField_named _ "MetricValue" _ .metricValue (by decide),
      member_tag usageField_named _ "Timestamp" _ .timestamp (by decide),
      member_tag usageField_named _ "Signature" _ .signature (by decide)]
    simp only [UsageField.set, toStr, Json.toInt, Int64.ofInt_toInt]
  · simp only [List.all_cons, List.all_nil, Bool.and_true, Bool.and_eq_true]
    refine ⟨taken _ .requestID _ (by decide) rfl, taken _ .service _ (by decide) rfl, taken _ .consumerPeer _ (by decide) rfl,
      taken _ .providerPeer _ (by decide) rfl, taken _ .metricName _ (by decide) rfl, taken _ .metricValue _ (by decide) ?_,
      taken _ .timestamp _ (by decide) ?_, taken _ .signature _ (by decide) rfl⟩
    · exact decide_eq_true value
    · exact decide_eq_true time

end Codec

section Keys

/-- The request IDs that `GenerateRequestID` makes: digits, a hyphen, hexadecimal digits. -/
def Clean (requestID : String) : Prop := '/' ∉ requestID.toList

instance (requestID : String) : Decidable (Clean requestID) := inferInstanceAs (Decidable (_ ∉ _))

variable {requestID requestID' metricName metricName' : String}

theorem recordKey_inj (clean : Clean requestID) (clean' : Clean requestID')
    (same : recordKey requestID metricName = recordKey requestID' metricName') : requestID = requestID' ∧ metricName = metricName' := by
  have joined : requestID ++ String.singleton '/' ++ metricName = requestID' ++ String.singleton '/' ++ metricName' := by
    have spelled := congrArg String.toList same
    simp only [recordKey, String.toList_append, List.append_assoc] at spelled
    refine String.toList_inj.mp ?_
    simp only [String.toList_append, List.append_assoc]
    exact List.append_cancel_left spelled
  exact String.separated_inj clean clean' joined

theorem recordKey_start : ("record/").toList.isPrefixOf (recordKey requestID metricName).toList = true := by
  rw [recordKey, String.append_assoc, String.append_assoc, String.toList_append, List.isPrefixOf_iff_prefix]
  exact List.prefix_append _ _

theorem aggregateName_start (agg : AggregatedUsage) : ("record/").toList.isPrefixOf (aggregateName agg).toList = false := by
  simp only [aggregateName, String.append_assoc, String.toList_append]
  rfl

end Keys

section Ledger

/-- What an operation does to the record of a request and a metric. -/
def UsageOp.stand (key : String × String) (old : Option UsageRecord) : UsageOp → Option UsageRecord
  | .saveRecord r => if r.key = key then some r else old
  | .markAggregated records => if key ∈ records.map UsageRecord.key then none else old
  | .saveAggregate _ => old

/-- The record that stands for a request and a metric: the last one saved, unless it has been marked since. -/
def standing (ops : List (UsageOp × Bool)) (key : String × String) : Option UsageRecord :=
  ops.foldl (fun old op => if op.2 then op.1.stand key old else old) none

def UsageOp.Clean : UsageOp → Prop
  | .saveRecord r => Usage.Clean r.requestID
  | .markAggregated records => ∀ r ∈ records, Usage.Clean r.requestID
  | .saveAggregate _ => True

/-- The records of the store are those that stand. -/
structure UsageStore.Keeps (db : UsageStore) (stands : String × String → Option UsageRecord) : Prop where
  kept : ∀ requestID metricName, Clean requestID →
    db.lookup (recordKey requestID metricName) = (stands (requestID, metricName)).map UsageRecord.toJson
  only : ∀ k ∈ db.keys, ("record/").toList.isPrefixOf k.toList = true →
    ∃ r : UsageRecord, Clean r.requestID ∧ k = recordKey r.requestID r.metricName
  own : ∀ key r, stands key = some r → r.key = key

theorem UsageStore.Keeps.empty : UsageStore.Keeps ∅ (fun _ => none) where
  kept := fun _ _ _ => rfl
  only := fun _ member => by cases member
  own := fun _ _ found => by cases found

variable {db : UsageStore} {stands : String × String → Option UsageRecord}

theorem lookup_markAggregated (records : List UsageRecord) (txn : Batch String Json) (db : UsageStore) (k : String) :
    (Batch.apply (records.foldl (fun txn r => txn.delete (recordKey r.requestID r.metricName)) txn) db).lookup k =
      if k ∈ records.map (fun r => recordKey r.requestID r.metricName) then none else (Batch.apply txn db).lookup k := by
  induction records generalizing txn with
  | nil => simp
  | cons r rest ih =>
    rw [List.foldl_cons, ih, Batch.lookup_apply_delete, List.map_cons]
    by_cases later : k ∈ rest.map (fun r => recordKey r.requestID r.metricName)
    · rw [if_pos later, if_pos (List.mem_cons_of_mem _ later)]
    · by_cases here : k = recordKey r.requestID r.metricName
      · simp [here]
      · simp [later, here]

/-- What a transaction does under the key of a record. -/
theorem lookup_record {op : UsageOp} (clean : op.Clean) {requestID metricName : String} (fine : Clean requestID) :
    (op.writes.apply db).lookup (recordKey requestID metricName) =
      match op with
      | .saveRecord r => if r.key = (requestID, metricName) then some r.toJson else db.lookup (recordKey requestID metricName)
      | .markAggregated records =>
        if (requestID, metricName) ∈ records.map UsageRecord.key then none else db.lookup (recordKey requestID metricName)
      | .saveAggregate _ => db.lookup (recordKey requestID metricName) := by
  cases op with
  | saveRecord r =>
    simp only [UsageOp.writes, Batch.lookup_apply_put, Batch.lookup_apply_nil]
    by_cases same : r.key = (requestID, metricName)
    · obtain ⟨rfl, rfl⟩ := Prod.mk.inj same
      rw [if_pos rfl, if_pos same]
    · have other : recordKey requestID metricName ≠ recordKey r.requestID r.metricName := by
        intro equal
        obtain ⟨rfl, rfl⟩ := recordKey_inj fine clean equal
        exact same rfl
      rw [if_neg other, if_neg same]
  | markAggregated records =>
    simp only [UsageOp.writes, lookup_markAggregated, Batch.lookup_apply_nil]
    have listed : recordKey requestID metricName ∈ records.map (fun r => recordKey r.requestID r.metricName) ↔
        (requestID, metricName) ∈ records.map UsageRecord.key := by
      constructor
      · intro member
        obtain ⟨r, inside, equal⟩ := List.mem_map.mp member
        obtain ⟨rfl, rfl⟩ := recordKey_inj fine (clean r inside) equal.symm
        exact List.mem_map.mpr ⟨r, inside, rfl⟩
      · intro member
        obtain ⟨r, inside, equal⟩ := List.mem_map.mp member
        obtain ⟨rfl, rfl⟩ := Prod.mk.inj equal
        exact List.mem_map.mpr ⟨r, inside, rfl⟩
    simp only [listed]
  | saveAggregate agg =>
    simp only [UsageOp.writes, Batch.lookup_apply_put, Batch.lookup_apply_nil]
    refine if_neg (fun equal => ?_)
    have started := @recordKey_start requestID metricName
    rw [equal, aggregateName_start] at started
    cases started

theorem mem_keys_of_lookup {k : String} {value : Json} (found : db.lookup k = some value) : k ∈ db.keys :=
  AList.mem_keys.mp (AList.lookup_isSome.mp (by rw [found]; rfl))

/-- A transaction makes no keys but those of its records and of its aggregate. -/
theorem mem_keys_apply {op : UsageOp} {k : String} (member : k ∈ (op.writes.apply db).keys) : k ∈ db.keys ∨
    (∃ r, op = .saveRecord r ∧ k = recordKey r.requestID r.metricName) ∨ ∃ agg, op = .saveAggregate agg ∧ k = aggregateName agg := by
  obtain ⟨value, found⟩ := Option.isSome_iff_exists.mp (AList.lookup_isSome.mpr (AList.mem_keys.mpr member))
  cases op with
  | saveRecord r =>
    simp only [UsageOp.writes, Batch.lookup_apply_put, Batch.lookup_apply_nil] at found
    by_cases same : k = recordKey r.requestID r.metricName
    · exact .inr (.inl ⟨r, rfl, same⟩)
    · rw [if_neg same] at found
      exact .inl (mem_keys_of_lookup found)
  | markAggregated records =>
    simp only [UsageOp.writes, lookup_markAggregated, Batch.lookup_apply_nil] at found
    split at found
    · cases found
    · exact .inl (mem_keys_of_lookup found)
  | saveAggregate agg =>
    simp only [UsageOp.writes, Batch.lookup_apply_put, Batch.lookup_apply_nil] at found
    by_cases same : k = aggregateName agg
    · exact .inr (.inr ⟨agg, rfl, same⟩)
    · rw [if_neg same] at found
      exact .inl (mem_keys_of_lookup found)

/-- A record that stands after an operation was saved by it, or stood before. -/
theorem UsageOp.stand_cases {op : UsageOp} {key : String × String} {old : Option UsageRecord} {r : UsageRecord}
    (stood : op.stand key old = some r) : (op = .saveRecord r ∧ r.key = key) ∨ old = some r := by
  cases op with
  | saveRecord r' =>
    simp only [UsageOp.stand] at stood
    split at stood
    · rename_i same
      obtain rfl := Option.some.inj stood
      exact .inl ⟨rfl, same⟩
    · exact .inr stood
  | markAggregated records =>
    simp only [UsageOp.stand] at stood
    split at stood
    · cases stood
    · exact .inr stood
  | saveAggregate agg => exact .inr stood

theorem UsageStore.Keeps.commit (keeps : db.Keeps stands) {op : UsageOp} (clean : op.Clean) :
    UsageStore.Keeps (op.writes.apply db) (fun key => op.stand key (stands key)) where
  kept := by
    intro requestID metricName fine
    have before := keeps.kept requestID metricName fine
    rw [lookup_record clean fine]
    cases op with
    | saveRecord r =>
      simp only [UsageOp.stand, before]
      split <;> rfl
    | markAggregated records =>
      simp only [UsageOp.stand, before]
      split <;> rfl
    | saveAggregate agg => exact before
  only := by
    intro k member start
    rcases mem_keys_apply member with old | ⟨r, rfl, rfl⟩ | ⟨agg, rfl, rfl⟩
    · exact keeps.only k old start
    · exact ⟨r, clean, rfl⟩
    · rw [aggregateName_start] at start
      cases start
  own := by
    intro key r stood
    rcases UsageOp.stand_cases stood with ⟨_, same⟩ | before
    · exact same
    · exact keeps.own key r before

/-- The store keeps what stands, whatever sequence of transactions it has seen. -/
theorem UsageStore.keeps_run {ops : List (UsageOp × Bool)} (clean : ∀ op ∈ ops, op.1.Clean) :
    (UsageStore.run ∅ ops).Keeps (standing ops) := by
  induction ops using List.reverseRecOn with
  | nil => exact .empty
  | append_singleton ops op ih =>
    have before := ih (fun op member => clean op (List.mem_append_left _ member))
    have fine := clean op (List.mem_append_right _ (List.mem_singleton.mpr rfl))
    have ran : UsageStore.run ∅ (ops ++ [op]) = (UsageStore.run ∅ ops).update op.1 op.2 := by
      simp only [UsageStore.run, List.foldl_append, List.foldl_cons, List.foldl_nil]
    have stood : standing (ops ++ [op]) = fun key => if op.2 then op.1.stand key (standing ops key) else standing ops key := by
      funext key
      simp only [standing, List.foldl_append, List.foldl_cons, List.foldl_nil]
    rw [ran, stood, UsageStore.update]
    cases op.2 with
    | true => exact before.commit fine
    | false => exact before

end Ledger

section Reads

variable {db : UsageStore} {stands : String × String → Option UsageRecord} {ops : List (UsageOp × Bool)}

theorem getRecord_of_keeps (keeps : db.Keeps stands) {requestID metricName : String} (fine : Clean requestID) :
    getRecord db requestID metricName = stands (requestID, metricName) := by
  rw [getRecord, keeps.kept requestID metricName fine]
  cases stands (requestID, metricName) with
  | none => rfl
  | some r => exact r.unmarshal_toJson

/-- What `GetRecord` answers is the last record saved that has not been marked since. -/
theorem getRecord_run (clean : ∀ op ∈ ops, op.1.Clean) {requestID metricName : String} (fine : Clean requestID) :
    getRecord (UsageStore.run ∅ ops) requestID metricName = standing ops (requestID, metricName) :=
  getRecord_of_keeps (UsageStore.keeps_run clean) fine

theorem standing_clean (clean : ∀ op ∈ ops, op.1.Clean) {key : String × String} {r : UsageRecord}
    (stood : standing ops key = some r) : Clean r.requestID := by
  induction ops using List.reverseRecOn with
  | nil => cases stood
  | append_singleton ops op ih =>
    have before := ih (fun op member => clean op (List.mem_append_left _ member))
    have fine := clean op (List.mem_append_right _ (List.mem_singleton.mpr rfl))
    simp only [standing, List.foldl_append, List.foldl_cons, List.foldl_nil] at stood before
    split at stood
    · rcases UsageOp.stand_cases stood with ⟨saved, _⟩ | old
      · rw [saved] at fine
        exact fine
      · exact before old
    · exact before stood

/-- The values under keys of records are records that stand, in the order of the keys. -/
theorem scan_records (keeps : db.Keeps stands) {keys : List String}
    (scanned : ∀ k ∈ keys, k ∈ db.keys ∧ ("record/").toList.isPrefixOf k.toList = true) :
    ∃ records : List UsageRecord, records.map (fun r => recordKey r.requestID r.metricName) = keys ∧
      keys.filterMap db.lookup = records.map UsageRecord.toJson ∧ ∀ r ∈ records, Clean r.requestID ∧ stands r.key = some r := by
  induction keys with
  | nil => exact ⟨[], rfl, rfl, fun _ member => by cases member⟩
  | cons k rest ih =>
    obtain ⟨records, spelled, values, stood⟩ := ih (fun k' member => scanned k' (List.mem_cons_of_mem _ member))
    obtain ⟨member, start⟩ := scanned k List.mem_cons_self
    obtain ⟨r, fine, rfl⟩ := keeps.only k member start
    have kept := keeps.kept r.requestID r.metricName fine
    obtain ⟨value, found⟩ := Option.isSome_iff_exists.mp (AList.lookup_isSome.mpr (AList.mem_keys.mp member))
    obtain ⟨r', here, rfl⟩ := Option.map_eq_some_iff.mp (kept.symm.trans found)
    obtain ⟨sameID, sameMetric⟩ := Prod.mk.inj (keeps.own _ r' here)
    refine ⟨r' :: records, ?_, ?_, ?_⟩
    · rw [List.map_cons, spelled, sameID, sameMetric]
    · simp only [List.filterMap_cons, found, values, List.map_cons]
    · intro r'' listed
      rcases List.mem_cons.mp listed with rfl | later
      · exact ⟨sameID ▸ fine, (keeps.own _ r'' here) ▸ here⟩
      · exact stood r'' later

/-- A scan of the records sees each that stands once. -/
theorem iterate_records (keeps : db.Keeps stands) :
    ∃ records : List UsageRecord, iterate db "record/" = records.map UsageRecord.toJson ∧ records.Nodup ∧
      ∀ r, r ∈ records ↔ Clean r.requestID ∧ stands r.key = some r := by
  have sorted := List.perm_insertionSort (· ≤ ·) (db.keys.filter (fun key => ("record/").toList.isPrefixOf key.toList))
  obtain ⟨records, spelled, values, stood⟩ := scan_records keeps (fun k member => List.mem_filter.mp (sorted.mem_iff.mp member))
  have distinct : (records.map (fun r => recordKey r.requestID r.metricName)).Nodup := by
    rw [spelled, sorted.nodup_iff]
    exact db.nodupKeys.filter _
  refine ⟨records, values, distinct.of_map, fun r => ⟨stood r, ?_⟩⟩
  rintro ⟨fine, here⟩
  have found : db.lookup (recordKey r.requestID r.metricName) = some r.toJson := by
    rw [keeps.kept r.requestID r.metricName fine]
    exact congrArg (Option.map UsageRecord.toJson) here
  have listed : recordKey r.requestID r.metricName ∈ records.map (fun r => recordKey r.requestID r.metricName) := by
    rw [spelled, sorted.mem_iff]
    exact List.mem_filter.mpr ⟨mem_keys_of_lookup found, recordKey_start⟩
  obtain ⟨r', member, same⟩ := List.mem_map.mp listed
  obtain ⟨fine', here'⟩ := stood r' member
  obtain ⟨sameID, sameMetric⟩ := recordKey_inj fine' fine same
  have sameKey : r'.key = r.key := Prod.ext sameID sameMetric
  rw [sameKey, here] at here'
  exact Option.some.inj here' ▸ member

theorem pending_loop (consumer provider service metric : String) (records : List UsageRecord) :
    getPendingRecords.loop consumer provider service metric (records.map UsageRecord.toJson) =
      (records.filter (fun r => r.consumerPeer = consumer ∧ r.providerPeer = provider ∧ r.service = service ∧ r.metricName = metric),
        true) := by
  induction records with
  | nil => rfl
  | cons r rest ih =>
    rw [List.map_cons, getPendingRecords.loop, r.unmarshal_toJson, List.filter_cons]
    simp only [ih, decide_eq_true_eq]
    split <;> rfl

/-- `GetPendingRecords` returns the records that stand and meet the criteria, each once, and no error. -/
theorem getPendingRecords_run (clean : ∀ op ∈ ops, op.1.Clean) (consumer provider service metric : String) :
    ∃ records, getPendingRecords (UsageStore.run ∅ ops) consumer provider service metric = (records, true) ∧ records.Nodup ∧
      ∀ r, r ∈ records ↔ standing ops r.key = some r ∧
        r.consumerPeer = consumer ∧ r.providerPeer = provider ∧ r.service = service ∧ r.metricName = metric := by
  obtain ⟨records, values, distinct, listed⟩ := iterate_records (UsageStore.keeps_run clean)
  refine ⟨_, by rw [getPendingRecords, values, pending_loop], distinct.filter _, fun r => ?_⟩
  rw [List.mem_filter, listed, decide_eq_true_eq]
  exact and_congr_left' ⟨And.right, fun stood => ⟨standing_clean clean stood, stood⟩⟩

/-- After any sequence of transactions `GetRecord` answers what stands, and `GetPendingRecords` lists it. -/
theorem records_stand (clean : ∀ op ∈ ops, op.1.Clean) :
    (∀ requestID metricName, Clean requestID →
      getRecord (UsageStore.run ∅ ops) requestID metricName = standing ops (requestID, metricName)) ∧
    ∀ consumer provider service metric, ∃ records,
      getPendingRecords (UsageStore.run ∅ ops) consumer provider service metric = (records, true) ∧ records.Nodup ∧
        ∀ r, r ∈ records ↔ standing ops r.key = some r ∧
          r.consumerPeer = consumer ∧ r.providerPeer = provider ∧ r.service = service ∧ r.metricName = metric :=
  ⟨fun _ _ => getRecord_run clean, getPendingRecords_run clean⟩

end Reads

namespace Billed

def used (requestID : String) (value : Int64) : UsageRecord := ⟨requestID, "llm", "head", "worker", "tokens", value, 1700000000, ""⟩

/-- Two requests are saved, the first once more; what a third one saves is lost, and then the first is marked. -/
def ops : List (UsageOp × Bool) :=
  [(.saveRecord (used "1-a" 10), true), (.saveRecord (used "2-b" 20), true), (.saveRecord (used "1-a" 11), true),
    (.saveRecord (used "3-c" 30), false), (.saveAggregate ⟨"worker", "llm", "tokens", 11, 1, 1700000000, 1700000060⟩, true),
    (.markAggregated [used "1-a" 11], true)]

theorem ops_clean : ∀ op ∈ ops, op.1.Clean := by
  simp only [ops, List.forall_mem_cons, UsageOp.Clean, List.not_mem_nil, false_implies, implies_true, and_true]
  decide

end Billed

open Billed in
/-- Of the three requests only the second is still to be billed. -/
theorem records_stand_billed :
    getRecord (UsageStore.run ∅ ops) "1-a" "tokens" = none ∧ getRecord (UsageStore.run ∅ ops) "2-b" "tokens" = some (used "2-b" 20) ∧
      ∃ records, getPendingRecords (UsageStore.run ∅ ops) "head" "worker" "llm" "tokens" = (records, true) ∧
        used "2-b" 20 ∈ records ∧ used "1-a" 11 ∉ records ∧ used "3-c" 30 ∉ records := by
  obtain ⟨answers, lists⟩ := records_stand ops_clean
  obtain ⟨records, listed, _, member⟩ := lists "head" "worker" "llm" "tokens"
  refine ⟨(answers _ _ (by decide)).trans (by decide), (answers _ _ (by decide)).trans (by decide), records, listed, ?_⟩
  simp only [member]
  decide

end OpenTela.Usage
