import OpenTela.Lib.Expiring
import OpenTela.Lib.Separated
import OpenTela.Server.Decisions
import Mathlib.Algebra.Order.Ring.Int
import Mathlib.Data.List.Sort
import Mathlib.Data.String.Basic

namespace OpenTela

/-- The two evaluations, `/internal/acl/evaluate` and `/internal/acl/evaluate-v2`. -/
inductive AclVersion where
  | v1
  | v2
  deriving DecidableEq

def AclVersion.Request : AclVersion → Type
  | .v1 => AclEvaluateRequest
  | .v2 => AclEvaluateV2Request

def AclVersion.Response : AclVersion → Type
  | .v1 => AclEvaluateResponse
  | .v2 => AclEvaluateV2Response

def AclVersion.Decision : AclVersion → Type
  | .v1 => ControlPlaneDecision
  | .v2 => ControlPlaneDecisionV2

/-- `sha256Hex`: the digest in hexadecimal. -/
structure Digest where
  sha256Hex : String → String
  digits : ∀ token, ∀ c ∈ (sha256Hex token).toList, c.isDigit ∨ ('a' ≤ c ∧ c ≤ 'f')

/-- The settings under `security.control_plane`; durations are in nanoseconds. -/
structure ControlPlane where
  url : String
  validURL : Bool := true
  token : String
  cacheTTL : ℤ := 0
  staleIfError : ℤ := 0
  digest : Digest

def second : ℤ := 10 ^ 9

def ControlPlane.isControlPlaneEnabled (cp : ControlPlane) : Bool := decide (trimSpace cp.url ≠ "")

def ControlPlane.controlPlaneCacheTTL (cp : ControlPlane) : ℤ := if 0 < cp.cacheTTL then cp.cacheTTL else 60 * second

def ControlPlane.controlPlaneStaleIfError (cp : ControlPlane) : ℤ := if 0 < cp.staleIfError then cp.staleIfError else 120 * second

/-- `time.Duration(serverTTLSeconds) * time.Second` is computed in 64 bits. -/
def ControlPlane.controlPlaneFreshTTL (cp : ControlPlane) (serverTTLSeconds : ℤ) : ℤ :=
  let localCap := cp.controlPlaneCacheTTL
  if serverTTLSeconds ≤ 0 then localCap
  else
    let serverTTL := (serverTTLSeconds * second).bmod (2 ^ 64)
    if localCap ≤ 0 ∨ serverTTL < localCap then serverTTL else localCap

/-- The entry that `set` of either cache makes. -/
def cacheEntry {α : Type} (decision : α) (freshFor staleFor now : ℤ) : Expiring.Entry α ℤ :=
  let freshUntil := now + freshFor
  { value := decision, freshUntil, staleUntil := if 0 < staleFor then freshUntil + staleFor else freshUntil }

def uniquePeerIDs.loop : List String → List String → List String
  | [], unique => unique
  | peerID :: rest, unique =>
    let peerID := trimSpace peerID
    if peerID = "" then loop rest unique
    else if peerID ∈ unique then loop rest unique
    else loop rest (unique ++ [peerID])

def uniquePeerIDs (peerIDs : List String) : List String := uniquePeerIDs.loop peerIDs []

/-- `sort.Strings` on a copy. -/
def sortedPeerIDs (peerIDs : List String) : List String := peerIDs.insertionSort (fun a b => a ≤ b)

def cacheKeyForDecision (keyHash : String) (peerIDs : List String) : String :=
  keyHash ++ String.singleton nul ++ (String.singleton nul).intercalate (sortedPeerIDs peerIDs)

def cacheKeyForDecisionV2 (keyHash : String) (scope : RoutingScope) (peerIDs : List String) : String :=
  (String.singleton nul).intercalate
    [keyHash, "v2", scope.partition.text, scope.region, scope.routeKind.text, scope.service,
      (String.singleton nul).intercalate (sortedPeerIDs peerIDs)]

def shouldCacheDecisionV2 (scope : RoutingScope) : Bool :=
  decide (scope.partition = .permissionless ∧ scope.routeKind ≠ .worker)

/-- How long a response may be used as fresh: what the server says, if it does, but no longer than the cap. -/
def ControlPlane.freshBound (cp : ControlPlane) (serverTTLSeconds : ℤ) : ℤ :=
  if 0 < serverTTLSeconds then min (serverTTLSeconds * second) cp.controlPlaneCacheTTL else cp.controlPlaneCacheTTL

/-- The digits of a digest, checked one by one. -/
theorem hex_digits {s : String} (checked : s.toList.all (fun c => c.isDigit || (97 ≤ c.toNat && c.toNat ≤ 102)) = true) :
    ∀ c ∈ s.toList, c.isDigit ∨ ('a' ≤ c ∧ c ≤ 'f') := by
  intro c member
  have digit := List.all_eq_true.mp checked c member
  simp only [Bool.or_eq_true, Bool.and_eq_true, decide_eq_true_eq] at digit
  refine digit.imp_right (fun ⟨low, high⟩ => ?_)
  simp only [Char.le_def, UInt32.le_iff_toNat_le]
  exact ⟨low, high⟩

theorem Digest.clean (d : Digest) (token : String) : nul ∉ (d.sha256Hex token).toList := by
  intro member
  rcases d.digits token nul member with digit | ⟨above, _⟩
  · exact absurd digit (by decide)
  · exact absurd above (by decide)

section Times

variable (cp : ControlPlane)

theorem ControlPlane.staleIfError_pos : 0 < cp.controlPlaneStaleIfError := by
  unfold ControlPlane.controlPlaneStaleIfError
  split
  · assumption
  · decide

theorem ControlPlane.freshTTL_le (n : ℤ) : cp.controlPlaneFreshTTL n ≤ cp.freshBound n := by
  unfold ControlPlane.controlPlaneFreshTTL ControlPlane.freshBound
  by_cases given : n ≤ 0
  · simp only [given, Int.not_lt.mpr given, if_true, if_false, le_refl]
  · simp only [given, Int.not_le.mp given, if_true, if_false]
    have capped : 0 < cp.controlPlaneCacheTTL := by
      unfold ControlPlane.controlPlaneCacheTTL
      split
      · assumption
      · decide
    have wrapped : (n * second).bmod (2 ^ 64) ≤ n * second := by
      rw [Int.bmod_def]
      unfold second
      split <;> omega
    split <;> omega

variable {α : Type} (decision : α) (freshFor now : ℤ)

theorem cacheEntry_stale : (cacheEntry decision freshFor cp.controlPlaneStaleIfError now).staleUntil =
    now + freshFor + cp.controlPlaneStaleIfError := by
  unfold cacheEntry
  simp only [cp.staleIfError_pos, if_true]

end Times

section Keys

variable {keyHash keyHash' : String} {peerIDs peerIDs' : List String}

theorem cacheKeyForDecision_inj (clean : nul ∉ keyHash.toList) (clean' : nul ∉ keyHash'.toList)
    (same : cacheKeyForDecision keyHash peerIDs = cacheKeyForDecision keyHash' peerIDs') : keyHash = keyHash' :=
  (String.separated_inj clean clean' same).1

theorem RoutingPartition.text_clean (p : RoutingPartition) : nul ∉ p.text.toList := by
  cases p <;> decide

theorem RouteKind.text_clean (k : RouteKind) : nul ∉ k.text.toList := by
  cases k <;> decide

theorem RoutingPartition.text_inj {p q : RoutingPartition} (same : p.text = q.text) : p = q := by
  revert same
  cases p <;> cases q <;> decide

theorem RouteKind.text_inj {k l : RouteKind} (same : k.text = l.text) : k = l := by
  revert same
  cases k <;> cases l <;> decide

theorem cacheKeyForDecisionV2_inj {scope scope' : RoutingScope} (clean : nul ∉ keyHash.toList) (clean' : nul ∉ keyHash'.toList)
    (valid : scope.validate = .ok ()) (valid' : scope'.validate = .ok ())
    (same : cacheKeyForDecisionV2 keyHash scope peerIDs = cacheKeyForDecisionV2 keyHash' scope' peerIDs') :
    keyHash = keyHash' ∧ scope = scope' := by
  obtain ⟨regionClean, serviceClean⟩ := RoutingScope.clean valid
  obtain ⟨regionClean', serviceClean'⟩ := RoutingScope.clean valid'
  unfold cacheKeyForDecisionV2 at same
  obtain ⟨hashes, same⟩ := String.intercalate_inj clean clean' same
  obtain ⟨_, same⟩ := String.intercalate_inj (by decide) (by decide) same
  obtain ⟨partitions, same⟩ := String.intercalate_inj scope.partition.text_clean scope'.partition.text_clean same
  obtain ⟨regions, same⟩ := String.intercalate_inj regionClean regionClean' same
  obtain ⟨kinds, same⟩ := String.intercalate_inj scope.routeKind.text_clean scope'.routeKind.text_clean same
  obtain ⟨services, _⟩ := String.intercalate_inj serviceClean serviceClean' same
  refine ⟨hashes, ?_⟩
  cases scope
  cases scope'
  obtain rfl := RoutingPartition.text_inj partitions
  obtain rfl := RouteKind.text_inj kinds
  cases regions
  cases services
  rfl

end Keys

end OpenTela
