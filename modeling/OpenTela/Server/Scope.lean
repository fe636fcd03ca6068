import Mathlib.Data.List.DropRight

namespace OpenTela

/-- A message of `fmt.Errorf`; what it quotes with a `%q` at its end is kept as it is. -/
structure Message where
  text : String
  quoted : Option String := none
  deriving DecidableEq

/-- `unicode.IsSpace`. -/
def isSpace (c : Char) : Bool :=
  c.toNat ∈ [0x09, 0x0a, 0x0b, 0x0c, 0x0d, 0x20, 0x85, 0xa0, 0x1680, 0x2028, 0x2029, 0x202f, 0x205f, 0x3000] ||
    (decide (0x2000 ≤ c.toNat) && decide (c.toNat ≤ 0x200a))

/-- `strings.TrimSpace`. -/
def trimSpace (s : String) : String := String.ofList ((s.toList.dropWhile isSpace).rdropWhile isSpace)

inductive RoutingPartition where
  | permissionless
  | trustedRegion
  deriving DecidableEq

def RoutingPartition.text : RoutingPartition → String
  | .permissionless => "permissionless"
  | .trustedRegion => "trusted_region"

inductive RouteKind where
  | serviceIngress
  | p2pIngress
  | worker
  deriving DecidableEq

def RouteKind.text : RouteKind → String
  | .serviceIngress => "service_ingress"
  | .p2pIngress => "p2p_ingress"
  | .worker => "worker"

structure RoutingScope where
  partition : RoutingPartition
  region : String
  routeKind : RouteKind
  service : String
  deriving DecidableEq

def RoutingScope.trusted (s : RoutingScope) : Bool := decide (s.partition = .trustedRegion)

/-- A pattern `^[first][rest]{0,most}$`. -/
def matchesSlug (first rest : Char → Bool) (most : ℕ) (s : String) : Bool :=
  match s.toList with
  | [] => false
  | c :: cs => first c && decide (cs.length ≤ most) && cs.all rest

/-- `^[A-Za-z0-9][A-Za-z0-9._-]{0,79}$` -/
def serviceNamePattern : String → Bool :=
  matchesSlug Char.isAlphanum (fun c => c.isAlphanum || c == '.' || c == '_' || c == '-') 79

/-- `^[a-z0-9][a-z0-9-]{0,62}$` -/
def regionSlugPattern : String → Bool :=
  matchesSlug (fun c => c.isLower || c.isDigit) (fun c => c.isLower || c.isDigit || c == '-') 62

def RoutingScope.validate (s : RoutingScope) : Except Message Unit :=
  if !serviceNamePattern s.service then .error { text := "invalid service name", quoted := some s.service }
  else if s.partition = .trustedRegion then
    if !regionSlugPattern s.region then .error { text := "invalid region", quoted := some s.region } else .ok ()
  else if s.region ≠ "" then .error { text := "permissionless scope must not set region" }
  else .ok ()

def newRoutingScope (partition : RoutingPartition) (region : String) (kind : RouteKind) (service : String) : Except Message RoutingScope :=
  let scope : RoutingScope := { partition, region := trimSpace region, routeKind := kind, service := trimSpace service }
  match scope.validate with
  | .error e => .error e
  | .ok () => .ok scope

/-- Separates the parts of a cache key. -/
def nul : Char := Char.ofNat 0

theorem matchesSlug_clean {first rest : Char → Bool} {most : ℕ} {s : String} {c : Char} (matched : matchesSlug first rest most s = true)
    (notFirst : first c = false) (notRest : rest c = false) : c ∉ s.toList := by
  unfold matchesSlug at matched
  split at matched
  · cases matched
  · rename_i head tail spelled
    simp only [Bool.and_eq_true, List.all_eq_true] at matched
    obtain ⟨⟨begins, _⟩, continues⟩ := matched
    rw [spelled]
    intro member
    rcases List.mem_cons.mp member with rfl | later
    · exact absurd begins (by simp [notFirst])
    · exact absurd (continues c later) (by simp [notRest])

theorem newRoutingScope_ok {partition : RoutingPartition} {region service : String} {kind : RouteKind} {scope : RoutingScope}
    (made : newRoutingScope partition region kind service = .ok scope) : scope.validate = .ok () ∧ scope.partition = partition := by
  unfold newRoutingScope at made
  dsimp only at made
  split at made
  · cases made
  · rename_i valid
    cases made
    exact ⟨valid, rfl⟩

/-- No name in a valid scope has a separator in it. -/
theorem RoutingScope.clean {s : RoutingScope} (valid : s.validate = .ok ()) : nul ∉ s.region.toList ∧ nul ∉ s.service.toList := by
  unfold RoutingScope.validate at valid
  split at valid
  · cases valid
  · rename_i named
    have matched : serviceNamePattern s.service = true := by simpa using named
    have service : nul ∉ s.service.toList := matchesSlug_clean matched (by decide) (by decide)
    refine ⟨?_, service⟩
    split at valid
    · split at valid
      · cases valid
      · rename_i located
        have matched : regionSlugPattern s.region = true := by simpa using located
        exact matchesSlug_clean matched (by decide) (by decide)
    · split at valid
      · cases valid
      · rename_i regionless
        rw [not_not.mp regionless]
        exact List.not_mem_nil

end OpenTela
