import OpenTela.NodeTable.Peer

namespace OpenTela

/-- A JSON value. The members of an object are in the order in which they are written. -/
inductive Json where
  | null
  | bool (b : Bool)
  | num (n : ℤ)
  | str (s : String)
  | arr (items : List Json)
  | obj (members : List (String × Json))

namespace Json

/-- What `json.Unmarshal` leaves in a field of the type when it finds the value: a value of
another type is reported and passed over. -/
def toStr (old : String) : Json → String
  | str s => s
  | _ => old

def toInt (old : ℤ) : Json → ℤ
  | num n => n
  | _ => old

def toBool (old : Bool) : Json → Bool
  | bool b => b
  | _ => old

def toList {α : Type} (old : List α) (item : Json → α) : Json → List α
  | arr items => items.map item
  | null => []
  | _ => old

/-- A pointer is allocated for whatever is not `null`. -/
def toPointer {α : Type} (item : Json → α) : Json → Option α
  | null => none
  | j => some (item j)

/-- The name of an object's member matches a field's name without regard to case. -/
def sameName (name field : String) : Bool := name.toList.map Char.toLower == field.toList.map Char.toLower

/-- The field a member is for. -/
def fieldNamed {φ : Type} (tags : List (String × φ)) (name : String) : Option φ :=
  (tags.find? (fun f => sameName name f.1)).map Prod.snd

/-- A member that is for no field is passed over. -/
def member {φ α : Type} (tags : List (String × φ)) (set : α → Json → φ → α) (a : α) (m : String × Json) : α :=
  (fieldNamed tags m.1).elim a (set a m.2)

/-- The members of an object are taken in turn; anything else leaves the zero value. -/
def toStruct {φ α : Type} (tags : List (String × φ)) (set : α → Json → φ → α) (zero : α) : Json → α
  | obj members => members.foldl (member tags set) zero
  | _ => zero

end Json

/-- `omitempty`. -/
def omitEmpty (name : String) (value : String) : List (String × Json) := if value = "" then [] else [(name, .str value)]

inductive ServiceField where
  | name | status | host | port | identityGroup
  deriving DecidableEq

def ServiceField.tags : List (String × ServiceField) :=
  [("name", .name), ("status", .status), ("host", .host), ("port", .port), ("identity_group", .identityGroup)]

def Service.toJson (s : Service) : Json :=
  .obj [("name", .str s.name), ("status", .str s.status), ("host", .str s.host), ("port", .str s.port),
    ("identity_group", .arr (s.identityGroup.map .str))]

def ServiceField.set (s : Service) (j : Json) : ServiceField → Service
  | .name => { s with name := j.toStr s.name }
  | .status => { s with status := j.toStr s.status }
  | .host => { s with host := j.toStr s.host }
  | .port => { s with port := j.toStr s.port }
  | .identityGroup => { s with identityGroup := j.toList s.identityGroup (Json.toStr "") }

def Service.ofJson : Json → Service := Json.toStruct ServiceField.tags ServiceField.set { name := "" }

inductive BuildField where
  | version | commit | signature
  deriving DecidableEq

def BuildField.tags : List (String × BuildField) := [("version", .version), ("commit", .commit), ("build_sig", .signature)]

def BuildInfo.toJson (b : BuildInfo) : Json :=
  .obj [("version", .str b.version), ("commit", .str b.commit), ("build_sig", .str b.signature)]

def BuildField.set (b : BuildInfo) (j : Json) : BuildField → BuildInfo
  | .version => { b with version := j.toStr b.version }
  | .commit => { b with commit := j.toStr b.commit }
  | .signature => { b with signature := j.toStr b.signature }

def BuildInfo.ofJson : Json → BuildInfo := Json.toStruct BuildField.tags BuildField.set ⟨"", "", ""⟩

inductive IdentityField where
  | peerID | walletPubkey | timestamp | signature
  deriving DecidableEq

def IdentityField.tags : List (String × IdentityField) :=
  [("peer_id", .peerID), ("wallet_pubkey", .walletPubkey), ("timestamp", .timestamp), ("signature", .signature)]

def IdentityAttestation.toJson (a : IdentityAttestation) : Json :=
  .obj [("peer_id", .str a.peerID), ("wallet_pubkey", .str a.walletPubkey), ("timestamp", .num a.timestamp),
    ("signature", .str a.signature)]

def IdentityField.set (a : IdentityAttestation) (j : Json) : IdentityField → IdentityAttestation
  | .peerID => { a with peerID := j.toStr a.peerID }
  | .walletPubkey => { a with walletPubkey := j.toStr a.walletPubkey }
  | .timestamp => { a with timestamp := j.toInt a.timestamp }
  | .signature => { a with signature := j.toStr a.signature }

def IdentityAttestation.ofJson : Json → IdentityAttestation :=
  Json.toStruct IdentityField.tags IdentityField.set ⟨"", "", 0, ""⟩

inductive PeerField where
  | id | owner | role | status | service | lastSeen | relayPeer | evictedBy | connected | buildAttestation | identityAttestation
  deriving DecidableEq

def PeerField.tags : List (String × PeerField) :=
  [("id", .id), ("owner", .owner), ("role", .role), ("status", .status), ("service", .service), ("last_seen", .lastSeen),
    ("relay_peer", .relayPeer), ("evicted_by", .evictedBy), ("connected", .connected),
    ("build_attestation", .buildAttestation), ("identity_attestation", .identityAttestation)]

/-- `json.Marshal` of a record, as far as its fields are looked at. -/
def Peer.toJson (p : Peer) : Json :=
  .obj ([("id", .str p.id), ("owner", .str p.owner), ("role", .arr (p.role.map .str)), ("status", .str p.status),
      ("service", .arr (p.service.map Service.toJson)), ("last_seen", .num p.lastSeen)] ++
    omitEmpty "relay_peer" p.relayPeer ++ omitEmpty "evicted_by" p.evictedBy ++ [("connected", .bool p.connected)] ++
    p.buildAttestation.toList.map (fun b => ("build_attestation", b.toJson)) ++
    p.identityAttestation.toList.map (fun a => ("identity_attestation", a.toJson)))

def PeerField.set (p : Peer) (j : Json) : PeerField → Peer
  | .id => { p with id := j.toStr p.id }
  | .owner => { p with owner := j.toStr p.owner }
  | .role => { p with role := j.toList p.role (Json.toStr "") }
  | .status => { p with status := j.toStr p.status }
  | .service => { p with service := j.toList p.service Service.ofJson }
  | .lastSeen => { p with lastSeen := j.toInt p.lastSeen }
  | .relayPeer => { p with relayPeer := j.toStr p.relayPeer }
  | .evictedBy => { p with evictedBy := j.toStr p.evictedBy }
  | .connected => { p with connected := j.toBool p.connected }
  | .buildAttestation => { p with buildAttestation := j.toPointer BuildInfo.ofJson }
  | .identityAttestation => { p with identityAttestation := j.toPointer IdentityAttestation.ofJson }

/-- `json.Unmarshal` into a zero `Peer`. -/
def Peer.ofJson : Json → Peer := Json.toStruct PeerField.tags PeerField.set {}

/-- `usage.AggregatedUsage`; its fields carry no tags. -/
structure AggregatedUsage where
  peerID : String
  service : String
  metricName : String
  totalValue : ℤ
  recordCount : ℤ
  windowStart : ℤ
  windowEnd : ℤ
  signature : String

def AggregatedUsage.toJson (u : AggregatedUsage) : Json :=
  .obj [("PeerID", .str u.peerID), ("Service", .str u.service), ("MetricName", .str u.metricName),
    ("TotalValue", .num u.totalValue), ("RecordCount", .num u.recordCount), ("WindowStart", .num u.windowStart),
    ("WindowEnd", .num u.windowEnd), ("Signature", .str u.signature)]

section RoundTrip

open Json

/-- Every tag names its own field. -/
theorem serviceField_named : ∀ f ∈ ServiceField.tags, fieldNamed ServiceField.tags f.1 = some f.2 := by decide

theorem buildField_named : ∀ f ∈ BuildField.tags, fieldNamed BuildField.tags f.1 = some f.2 := by decide

theorem identityField_named : ∀ f ∈ IdentityField.tags, fieldNamed IdentityField.tags f.1 = some f.2 := by decide

theorem peerField_named : ∀ f ∈ PeerField.tags, fieldNamed PeerField.tags f.1 = some f.2 := by decide

theorem member_tag {φ α : Type} {tags : List (String × φ)} {set : α → Json → φ → α}
    (named : ∀ f ∈ tags, fieldNamed tags f.1 = some f.2) (a : α) (name : String) (j : Json) (f : φ)
    (tag : (name, f) ∈ tags) : member tags set a (name, j) = set a j f := by
  have here : fieldNamed tags name = some f := named (name, f) tag
  simp only [member, here]
  rfl

theorem map_toStr (items : List String) : (items.map Json.str).map (toStr "") = items := by
  rw [List.map_map]
  exact List.map_id items

theorem Service.ofJson_toJson (s : Service) : Service.ofJson s.toJson = s := by
  simp only [Service.ofJson, Service.toJson, toStruct, List.foldl_cons, List.foldl_nil]
  rw [member_tag serviceField_named _ "name" _ .name (by decide),
    member_tag serviceField_named _ "status" _ .status (by decide),
    member_tag serviceField_named _ "host" _ .host (by decide),
    member_tag serviceField_named _ "port" _ .port (by decide),
    member_tag serviceField_named _ "identity_group" _ .identityGroup (by decide)]
  simp only [ServiceField.set, toStr, Json.toList, map_toStr]

theorem map_ofJson (services : List Service) : (services.map Service.toJson).map Service.ofJson = services := by
  rw [List.map_map]
  exact (List.map_congr_left (fun s _ => Service.ofJson_toJson s)).trans (List.map_id services)

theorem BuildInfo.ofJson_toJson (b : BuildInfo) : BuildInfo.ofJson b.toJson = b := by
  simp only [BuildInfo.ofJson, BuildInfo.toJson, toStruct, List.foldl_cons, List.foldl_nil]
  rw [member_tag buildField_named _ "version" _ .version (by decide),
    member_tag buildField_named _ "commit" _ .commit (by decide),
    member_tag buildField_named _ "build_sig" _ .signature (by decide)]
  simp only [BuildField.set, toStr]

theorem IdentityAttestation.ofJson_toJson (a : IdentityAttestation) : IdentityAttestation.ofJson a.toJson = a := by
  simp only [IdentityAttestation.ofJson, IdentityAttestation.toJson, toStruct, List.foldl_cons, List.foldl_nil]
  rw [member_tag identityField_named _ "peer_id" _ .peerID (by decide),
    member_tag identityField_named _ "wallet_pubkey" _ .walletPubkey (by decide),
    member_tag identityField_named _ "timestamp" _ .timestamp (by decide),
    member_tag identityField_named _ "signature" _ .signature (by decide)]
  simp only [IdentityField.set, toStr, toInt]

/-- What the omitted members would have said is the zero value. -/
theorem foldl_omitEmpty (p : Peer) (name value : String) (f : PeerField) (tag : (name, f) ∈ PeerField.tags)
    (zero : value = "" → PeerField.set p (.str value) f = p) :
    (omitEmpty name value).foldl (member PeerField.tags PeerField.set) p = PeerField.set p (.str value) f := by
  unfold omitEmpty
  split
  · rename_i empty
    exact (zero empty).symm
  · rw [List.foldl_cons, List.foldl_nil]
    exact member_tag peerField_named p name _ f tag

theorem foldl_toList {α : Type} (p : Peer) (name : String) (value : Option α) (toJson : α → Json) (f : PeerField)
    (tag : (name, f) ∈ PeerField.tags) :
    (value.toList.map (fun a => (name, toJson a))).foldl (member PeerField.tags PeerField.set) p =
      value.elim p (fun a => PeerField.set p (toJson a) f) := by
  cases value with
  | none => rfl
  | some a =>
    rw [Option.toList_some, List.map_cons, List.map_nil, List.foldl_cons, List.foldl_nil]
    exact member_tag peerField_named p name _ f tag

/-- A record sent to another node arrives as it was published. -/
theorem Peer.ofJson_toJson (p : Peer) : Peer.ofJson p.toJson = p.published := by
  simp only [Peer.ofJson, Peer.toJson, toStruct, List.foldl_append, List.foldl_cons, List.foldl_nil]
  rw [member_tag peerField_named _ "id" _ .id (by decide), member_tag peerField_named _ "owner" _ .owner (by decide),
    member_tag peerField_named _ "role" _ .role (by decide), member_tag peerField_named _ "status" _ .status (by decide),
    member_tag peerField_named _ "service" _ .service (by decide),
    member_tag peerField_named _ "last_seen" _ .lastSeen (by decide),
    foldl_omitEmpty _ "relay_peer" _ .relayPeer (by decide), foldl_omitEmpty _ "evicted_by" _ .evictedBy (by decide),
    member_tag peerField_named _ "connected" _ .connected (by decide),
    foldl_toList _ "build_attestation" _ _ .buildAttestation (by decide),
    foldl_toList _ "identity_attestation" _ _ .identityAttestation (by decide)]
  · have build : ∀ b : BuildInfo, toPointer BuildInfo.ofJson b.toJson = some b :=
      fun b => congrArg some b.ofJson_toJson
    have identity : ∀ a : IdentityAttestation, toPointer IdentityAttestation.ofJson a.toJson = some a :=
      fun a => congrArg some a.ofJson_toJson
    simp only [PeerField.set, toStr, toInt, Json.toBool, Json.toList, map_toStr, map_ofJson, build, identity]
    cases attached : p.buildAttestation <;> cases attested : p.identityAttestation <;>
      simp [Peer.published, attached, attested]
  · intro empty
    rw [empty]
    rfl
  · intro empty
    rw [empty]
    rfl

/-- No member of a usage aggregate names a field of a peer but the service, and that is not a list. -/
theorem Peer.ofJson_usage (u : AggregatedUsage) : Peer.ofJson u.toJson = {} := by
  have strange : ∀ name ∈ ["PeerID", "MetricName", "TotalValue", "RecordCount", "WindowStart", "WindowEnd", "Signature"],
      fieldNamed PeerField.tags name = none := by decide
  have service : fieldNamed PeerField.tags "Service" = some .service := by decide
  simp only [Peer.ofJson, AggregatedUsage.toJson, toStruct, List.foldl_cons, List.foldl_nil, member, service,
    strange "PeerID" (by decide), strange "MetricName" (by decide), strange "TotalValue" (by decide),
    strange "RecordCount" (by decide), strange "WindowStart" (by decide), strange "WindowEnd" (by decide),
    strange "Signature" (by decide), Option.elim_none, Option.elim_some, PeerField.set, Json.toList]

end RoundTrip

end OpenTela
