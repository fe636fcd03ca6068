import OpenTela.Server.Routing
import Mathlib.Data.List.MinMax

namespace OpenTela

section Tiers

variable {α : Type}

/-- The tiers a fallback level permits. -/
def Permitted (fallbackLevel : ℤ) (k : ℕ) : Prop := k = 3 ∨ k = 2 ∧ 1 ≤ fallbackLevel ∨ k = 1 ∧ 2 ≤ fallbackLevel

/-- The result holds the members of the highest permitted tier that has any, in their order. -/
def IsBestTier (tier : α → ℕ) (members : List α) (fallbackLevel : ℤ) (result : List α) : Prop :=
  (∃ k, Permitted fallbackLevel k ∧ (∃ a ∈ members, tier a = k) ∧
    (∀ j, Permitted fallbackLevel j → k < j → ∀ a ∈ members, tier a ≠ j) ∧
    result = members.filter (fun a => tier a = k)) ∨
  (∀ k, Permitted fallbackLevel k → ∀ a ∈ members, tier a ≠ k) ∧ result = []

/-- The choice `selectCandidates` makes, over any assignment of tiers. -/
def pickTier (tier : α → ℕ) (members : List α) (fallbackLevel : ℤ) : List α :=
  let tierOf := fun k => members.filter (fun a => tier a = k)
  let candidates := tierOf 3
  let candidates := if candidates = [] ∧ 1 ≤ fallbackLevel then tierOf 2 else candidates
  if candidates = [] ∧ 2 ≤ fallbackLevel then tierOf 1 else candidates

variable {tier : α → ℕ} {members : List α} {fallbackLevel : ℤ}

theorem filter_tier_nil {k : ℕ} : members.filter (fun a => tier a = k) = [] ↔ ∀ a ∈ members, tier a ≠ k := by
  simp [List.filter_eq_nil_iff]

theorem filter_tier_ne_nil {k : ℕ} : members.filter (fun a => tier a = k) ≠ [] ↔ ∃ a ∈ members, tier a = k := by
  rw [ne_eq, filter_tier_nil]
  push Not
  rfl

variable (tier members fallbackLevel) in
/-- The three ways the choice can go. -/
theorem pickTier_cases :
    (∃ a ∈ members, tier a = 3) ∧ pickTier tier members fallbackLevel = members.filter (fun a => tier a = 3) ∨
    (∀ a ∈ members, tier a ≠ 3) ∧ 1 ≤ fallbackLevel ∧ (∃ a ∈ members, tier a = 2) ∧
      pickTier tier members fallbackLevel = members.filter (fun a => tier a = 2) ∨
    (∀ a ∈ members, tier a ≠ 3) ∧ (1 ≤ fallbackLevel → ∀ a ∈ members, tier a ≠ 2) ∧
      pickTier tier members fallbackLevel = if 2 ≤ fallbackLevel then members.filter (fun a => tier a = 1) else [] := by
  unfold pickTier
  by_cases exact : members.filter (fun a => tier a = 3) = []
  · refine Or.inr ?_
    by_cases wild : 1 ≤ fallbackLevel ∧ members.filter (fun a => tier a = 2) ≠ []
    · refine Or.inl ⟨filter_tier_nil.mp exact, wild.1, filter_tier_ne_nil.mp wild.2, ?_⟩
      simp only [exact, wild.1, wild.2, and_self, if_true, false_and, if_false]
    · refine Or.inr ⟨filter_tier_nil.mp exact, fun level => filter_tier_nil.mp ?_, ?_⟩
      · by_contra some
        exact wild ⟨level, some⟩
      · by_cases level : 1 ≤ fallbackLevel
        · have none : members.filter (fun a => tier a = 2) = [] := by
            by_contra some
            exact wild ⟨level, some⟩
          simp only [exact, level, none, and_self, if_true, true_and]
        · have low : ¬ 2 ≤ fallbackLevel := by omega
          simp only [exact, level, low, and_false, if_false]
  · refine Or.inl ⟨filter_tier_ne_nil.mp exact, ?_⟩
    simp only [exact, false_and, if_false]

theorem Permitted.raise {k : ℕ} {higher : ℤ} (permitted : Permitted fallbackLevel k) (raise : fallbackLevel ≤ higher) : Permitted higher k := by
  rcases permitted with rfl | ⟨rfl, low⟩ | ⟨rfl, low⟩
  · exact Or.inl rfl
  · exact Or.inr (Or.inl ⟨rfl, low.trans raise⟩)
  · exact Or.inr (Or.inr ⟨rfl, low.trans raise⟩)

/-- Where a tier is permitted the better ones are. -/
theorem Permitted.better {j k : ℕ} {higher : ℤ} (permitted : Permitted fallbackLevel k) (known : Permitted higher j) (above : k < j) :
    Permitted fallbackLevel j := by
  rcases known with rfl | ⟨rfl, _⟩ | ⟨rfl, _⟩
  · exact Or.inl rfl
  · rcases permitted with rfl | ⟨rfl, _⟩ | ⟨rfl, low⟩
    · omega
    · omega
    · exact Or.inr (Or.inl ⟨rfl, by omega⟩)
  · rcases permitted with rfl | ⟨rfl, _⟩ | ⟨rfl, _⟩ <;> omega

/-- Nobody is in a permitted tier above `k`, if nobody is in any of the three. -/
theorem none_above {k : ℕ} (three : k < 3 → ∀ a ∈ members, tier a ≠ 3) (two : k < 2 → 1 ≤ fallbackLevel → ∀ a ∈ members, tier a ≠ 2)
    (one : k < 1 → 2 ≤ fallbackLevel → ∀ a ∈ members, tier a ≠ 1) (j : ℕ) (permitted : Permitted fallbackLevel j) (above : k < j) :
    ∀ a ∈ members, tier a ≠ j := by
  rcases permitted with rfl | ⟨rfl, low⟩ | ⟨rfl, low⟩
  · exact three above
  · exact two above low
  · exact one above low

theorem pickTier_best : IsBestTier tier members fallbackLevel (pickTier tier members fallbackLevel) := by
  rcases pickTier_cases tier members fallbackLevel with ⟨some, eq⟩ | ⟨none, level, some, eq⟩ | ⟨none, none', eq⟩
  · exact Or.inl ⟨3, Or.inl rfl, some, none_above (by omega) (by omega) (by omega), eq⟩
  · exact Or.inl ⟨2, Or.inr (Or.inl ⟨rfl, level⟩), some, none_above (fun _ => none) (by omega) (by omega), eq⟩
  · by_cases there : 2 ≤ fallbackLevel ∧ ∃ a ∈ members, tier a = 1
    · obtain ⟨level, some⟩ := there
      rw [if_pos level] at eq
      exact Or.inl ⟨1, Or.inr (Or.inr ⟨rfl, level⟩), some, none_above (fun _ => none) (fun _ => none') (by omega), eq⟩
    · have empty : 2 ≤ fallbackLevel → ∀ a ∈ members, tier a ≠ 1 := fun level a member at_a => there ⟨level, a, member, at_a⟩
      refine Or.inr ⟨fun k permitted => ?_, ?_⟩
      · have positive : 0 < k := by
          rcases permitted with rfl | ⟨rfl, _⟩ | ⟨rfl, _⟩ <;> omega
        exact none_above (fun _ => none) (fun _ => none') (fun _ => empty) k permitted positive
      · rw [eq]
        split
        · rename_i level
          exact filter_tier_nil.mpr (empty level)
        · rfl

/-- The choice is the best tier, and nothing else is. -/
theorem isBestTier_iff {result : List α} :
    IsBestTier tier members fallbackLevel result ↔ result = pickTier tier members fallbackLevel := by
  refine ⟨fun best => ?_, fun eq => eq ▸ pickTier_best⟩
  rcases best with ⟨k, permitted, ⟨a, member, at_a⟩, highest, rfl⟩ | ⟨none, rfl⟩
  · rcases pickTier_best with ⟨k', permitted', ⟨a', member', at_a'⟩, highest', eq⟩ | ⟨none, _⟩
    · -- two highest tiers are the same
      have same : k = k' := by
        rcases Nat.lt_trichotomy k k' with below | same | above
        · exact absurd at_a' (highest k' permitted' below a' member')
        · exact same
        · exact absurd at_a (highest' k permitted above a member)
      rw [eq, same]
    · exact absurd at_a (none k permitted a member)
  · rcases pickTier_best with ⟨k', permitted', ⟨a', member', at_a'⟩, _⟩ | ⟨_, eq⟩
    · exact absurd at_a' (none k' permitted' a' member')
    · exact eq.symm

/-- Raising the level only adds members where there were none. -/
theorem pickTier_raise {higher : ℤ} (raise : fallbackLevel ≤ higher) (some : pickTier tier members fallbackLevel ≠ []) :
    pickTier tier members higher = pickTier tier members fallbackLevel := by
  refine (isBestTier_iff.mp ?_).symm
  rcases pickTier_best with ⟨k, permitted, there, highest, eq⟩ | ⟨_, eq⟩
  · exact Or.inl ⟨k, permitted.raise raise, there, fun j known above => highest j (permitted.better known above) above, eq⟩
  · exact absurd eq some

theorem pickTier_zero : pickTier tier members 0 = members.filter (fun a => tier a = 3) := by
  simp [pickTier]

theorem pickTier_one (none : ∀ a ∈ members, tier a ≠ 3) : pickTier tier members 1 = members.filter (fun a => tier a = 2) := by
  simp [pickTier, filter_tier_nil.mpr none]

/-- Members in the tier by the smaller assignment are no fewer only if they are all of them. -/
theorem filter_tier_length {first : α → ℕ} {k : ℕ} (smaller : ∀ a ∈ members, first a = k → tier a = k)
    (same : (members.filter (fun a => first a = k)).length = (members.filter (fun a => tier a = k)).length) :
    ∀ a ∈ members, tier a = k → first a = k := by
  have sub : (members.filter (fun a => first a = k)).Sublist (members.filter (fun a => tier a = k)) := by
    have narrowed : members.filter (fun a => first a = k) =
        (members.filter (fun a => tier a = k)).filter (fun a => first a = k) := by
      rw [List.filter_filter]
      refine List.filter_congr (fun a member => ?_)
      by_cases at_a : first a = k
      · simp [at_a, smaller a member at_a]
      · simp [at_a]
    rw [narrowed]
    exact List.filter_sublist
  have eq := sub.eq_of_length same
  intro a member at_a
  have inside : a ∈ members.filter (fun a => first a = k) := by
    rw [eq]
    simp [member, at_a]
  simpa using (List.mem_filter.mp inside).2

/-- The tiers below the first that has a member do not matter. -/
theorem pickTier_congr {first : α → ℕ} (three : ∀ a ∈ members, (first a = 3 ↔ tier a = 3))
    (two : (∀ a ∈ members, tier a ≠ 3) → ∀ a ∈ members, (first a = 2 ↔ tier a = 2))
    (one : (∀ a ∈ members, tier a ≠ 3) → (∀ a ∈ members, tier a ≠ 2) → ∀ a ∈ members, (first a = 1 ↔ tier a = 1)) :
    pickTier first members fallbackLevel = pickTier tier members fallbackLevel := by
  have agree : ∀ k, (∀ a ∈ members, (first a = k ↔ tier a = k)) →
      members.filter (fun a => first a = k) = members.filter (fun a => tier a = k) :=
    fun k same => List.filter_congr (fun a member => by simp only [same a member])
  simp only [pickTier, agree 3 three]
  by_cases none : ∀ a ∈ members, tier a ≠ 3
  · rw [agree 2 (two none)]
    by_cases none' : ∀ a ∈ members, tier a ≠ 2
    · rw [agree 1 (one none none')]
    · have there : members.filter (fun a => tier a = 2) ≠ [] := fun empty => none' (filter_tier_nil.mp empty)
      by_cases level : 1 ≤ fallbackLevel
      · simp only [filter_tier_nil.mpr none, level, and_self, if_true, there, false_and, if_false]
      · have low : ¬ 2 ≤ fallbackLevel := by omega
        simp only [level, low, and_false, if_false]
  · have there : members.filter (fun a => tier a = 3) ≠ [] := fun empty => none (filter_tier_nil.mp empty)
    simp only [there, false_and, if_false]

/-- A choice by a first match is a choice by the best match, at every level, exactly when nobody of
the winning tier has a worse first match. -/
theorem pickTier_first_iff {β : Type} (f : α → β) {first : α → ℕ} (below : ∀ a, first a ≤ tier a) (bound : ∀ a, tier a ≤ 3)
    (some : ∀ a, 0 < tier a → 0 < first a) :
    (∀ level, ∃ best, IsBestTier tier members level best ∧ (pickTier first members level).map f = best.map f) ↔
      (∀ a ∈ members, tier a = 3 → first a = 3) ∧
      ((∀ a ∈ members, tier a ≠ 3) → ∀ a ∈ members, tier a = 2 → first a = 2) := by
  have exact_tier : ∀ a, first a = 3 → tier a = 3 := fun a at_a => by
    have := below a
    have := bound a
    omega
  constructor
  · intro every
    constructor
    · obtain ⟨best, isBest, same⟩ := every 0
      rw [isBestTier_iff.mp isBest, pickTier_zero, pickTier_zero] at same
      exact filter_tier_length (fun a _ => exact_tier a) (by simpa only [List.length_map] using congrArg List.length same)
    · intro none
      obtain ⟨best, isBest, same⟩ := every 1
      have none' : ∀ a ∈ members, first a ≠ 3 := fun a member at_a => none a member (exact_tier a at_a)
      rw [isBestTier_iff.mp isBest, pickTier_one none, pickTier_one none'] at same
      refine filter_tier_length (fun a member at_a => ?_) (by simpa only [List.length_map] using congrArg List.length same)
      have := below a
      have := bound a
      have := none a member
      omega
  · rintro ⟨exact, wild⟩ level
    refine ⟨_, isBestTier_iff.mpr rfl, congrArg (List.map f) (pickTier_congr ?_ ?_ ?_)⟩
    · exact fun a member => ⟨exact_tier a, exact a member⟩
    · intro none a member
      have := below a
      have := bound a
      have := none a member
      have := wild none a member
      omega
    · intro none none' a member
      have := below a
      have := bound a
      have := some a
      have := none a member
      have := none' a member
      omega

end Tiers

section Matches

variable (json : JsonParser) (body serviceName : String)

/-- The match of one identity group. -/
def groupMatch (ig : String) : ℕ :=
  if ig = "all" then 1
  else
    match splitOnce '=' ig with
    | none => 0
    | some (igKey, igValue) =>
      if igValue = "*" then (if json.has body igKey then 2 else 0)
      else if json.getString body igKey = some igValue then 3
      else 0

/-- The best match over all the identity groups of a service. -/
def serviceMatch (service : Service) : ℕ := (service.identityGroup.map (groupMatch json body)).foldr max 0

/-- The tier of a provider: its best match over all its services of the name. -/
def providerTier (services : List Service) : ℕ :=
  ((services.filter (fun service => service.name = serviceName)).map (serviceMatch json body)).foldr max 0

/-- The provider offers its best match at the first of its services of the name that matches at all. -/
def Leads (services : List Service) : Prop :=
  ∃ before service after, services = before ++ service :: after ∧ service.name = serviceName ∧
    (∀ s ∈ before, s.name = serviceName → serviceMatch json body s = 0) ∧
    serviceMatch json body service = providerTier json body serviceName services

variable {json body serviceName}

theorem groupMatch_le (ig : String) : groupMatch json body ig ≤ 3 := by
  unfold groupMatch
  split
  · omega
  · split
    · omega
    · split
      · split <;> omega
      · split <;> omega

theorem serviceMatch_le (service : Service) : serviceMatch json body service ≤ 3 :=
  List.max_le_of_forall_le _ 3 (List.forall_mem_map.mpr (fun ig _ => groupMatch_le ig))

theorem providerTier_le (services : List Service) : providerTier json body serviceName services ≤ 3 :=
  List.max_le_of_forall_le _ 3 (List.forall_mem_map.mpr (fun service _ => serviceMatch_le service))

/-- The loop over the groups computes the best match, although it stops at an exact one. -/
theorem identityMatch_eq (igs : List String) {bestMatch : ℕ} (bound : bestMatch ≤ 3) :
    identityMatch json body igs bestMatch = max bestMatch ((igs.map (groupMatch json body)).foldr max 0) := by
  induction igs generalizing bestMatch with
  | nil => exact (max_eq_left (Nat.zero_le _)).symm
  | cons ig rest ih =>
    have rest_le : (rest.map (groupMatch json body)).foldr max 0 ≤ 3 :=
      List.max_le_of_forall_le _ 3 (List.forall_mem_map.mpr (fun ig _ => groupMatch_le ig))
    rw [List.map_cons, List.foldr_cons]
    generalize (rest.map (groupMatch json body)).foldr max 0 = best at ih rest_le
    by_cases all : ig = "all"
    · simp only [identityMatch, groupMatch, if_pos all]
      rw [ih (by omega)]
      omega
    · cases pair : splitOnce '=' ig with
      | none =>
        simp only [identityMatch, groupMatch, if_neg all, pair]
        rw [ih bound]
        omega
      | some keyValue =>
        obtain ⟨igKey, igValue⟩ := keyValue
        simp only [identityMatch, groupMatch, if_neg all, pair]
        by_cases wild : igValue = "*"
        · simp only [if_pos wild]
          split
          · rw [ih (by omega)]
            omega
          · rw [ih bound]
            omega
        · simp only [if_neg wild]
          -- an exact match ends the loop, and nothing after it could be better
          split
          · omega
          · rw [ih bound]
            omega

theorem providerMatch_cons (service : Service) (rest : List Service) :
    providerMatch json body serviceName (service :: rest) =
      if service.name = serviceName ∧ 0 < serviceMatch json body service then serviceMatch json body service
      else providerMatch json body serviceName rest := by
  have loop : identityMatch json body service.identityGroup 0 = serviceMatch json body service := by
    rw [identityMatch_eq _ (Nat.zero_le _)]
    exact max_eq_right (Nat.zero_le _)
  rw [providerMatch, loop]
  by_cases named : service.name = serviceName
  · by_cases matched : 0 < serviceMatch json body service
    · simp only [named, matched, if_true, and_self]
    · simp only [named, matched, if_true, and_false, if_false]
  · simp only [named, false_and, if_false]

theorem providerTier_cons (service : Service) (rest : List Service) :
    providerTier json body serviceName (service :: rest) =
      max (if service.name = serviceName then serviceMatch json body service else 0) (providerTier json body serviceName rest) := by
  unfold providerTier
  by_cases named : service.name = serviceName
  · simp [named]
  · simp [named]

/-- The first match is no better than the best one, and there is one if there is a best one. -/
theorem providerMatch_le (services : List Service) :
    providerMatch json body serviceName services ≤ providerTier json body serviceName services ∧
    (0 < providerTier json body serviceName services → 0 < providerMatch json body serviceName services) := by
  induction services with
  | nil => exact ⟨le_rfl, fun some => some⟩
  | cons service rest ih =>
    rw [providerMatch_cons, providerTier_cons]
    by_cases named : service.name = serviceName
    · by_cases matched : 0 < serviceMatch json body service
      · rw [if_pos ⟨named, matched⟩, if_pos named]
        exact ⟨le_max_left _ _, fun _ => matched⟩
      · rw [if_neg (fun both => matched both.2), if_pos named, Nat.eq_zero_of_not_pos matched, max_eq_right (Nat.zero_le _)]
        exact ih
    · rw [if_neg (fun both => named both.1), if_neg named, max_eq_right (Nat.zero_le _)]
      exact ih

theorem providerMatch_eq_iff {services : List Service} {k : ℕ} (matched : 0 < k) :
    providerMatch json body serviceName services = k ↔
      ∃ before service after, services = before ++ service :: after ∧ service.name = serviceName ∧
        (∀ s ∈ before, s.name = serviceName → serviceMatch json body s = 0) ∧ serviceMatch json body service = k := by
  induction services with
  | nil =>
    refine iff_of_false (fun none => matched.ne none) ?_
    rintro ⟨before, service, after, split, _⟩
    simp at split
  | cons service rest ih =>
    rw [providerMatch_cons]
    by_cases here : service.name = serviceName ∧ 0 < serviceMatch json body service
    · rw [if_pos here]
      constructor
      · exact fun eq => ⟨[], service, rest, rfl, here.1, by simp, eq⟩
      · rintro ⟨before, s, after, split, named, earlier, eq⟩
        cases before with
        | nil =>
          cases split
          exact eq
        | cons s' before =>
          cases split
          have unmatched := earlier service (List.mem_cons_self ..) here.1
          omega
    · rw [if_neg here, ih]
      constructor
      · rintro ⟨before, s, after, rfl, named, earlier, eq⟩
        refine ⟨service :: before, s, after, rfl, named, fun s' inside named' => ?_, eq⟩
        rcases List.mem_cons.mp inside with rfl | inside
        · by_contra some
          exact here ⟨named', Nat.pos_of_ne_zero some⟩
        · exact earlier s' inside named'
      · rintro ⟨before, s, after, split, named, earlier, eq⟩
        cases before with
        | nil =>
          cases split
          exact absurd ⟨named, eq ▸ matched⟩ here
        | cons s' before =>
          cases split
          exact ⟨before, s, after, rfl, named, fun s' inside => earlier s' (List.mem_cons_of_mem _ inside), eq⟩

theorem leads_iff {services : List Service} (matched : 0 < providerTier json body serviceName services) :
    Leads json body serviceName services ↔
      providerMatch json body serviceName services = providerTier json body serviceName services :=
  (providerMatch_eq_iff matched).symm

end Matches

theorem selectCandidates_eq (json : JsonParser) (providers : List Peer) (serviceName body : String) (fallbackLevel : ℤ) :
    selectCandidates json providers serviceName body fallbackLevel =
      (pickTier (fun p : Peer => providerMatch json body serviceName p.service) providers fallbackLevel).map Peer.id := by
  unfold selectCandidates pickTier
  simp only [← apply_ite (List.map Peer.id), List.map_eq_nil_iff]

/-- At every level the candidates are the providers of the best tier exactly when every provider of
the winning tier leads with its best match; and raising the level never changes a non-empty answer. -/
theorem selectCandidates_best_tier (json : JsonParser) (providers : List Peer) (serviceName body : String) :
    ((∀ fallbackLevel, ∃ best,
        IsBestTier (fun p : Peer => providerTier json body serviceName p.service) providers fallbackLevel best ∧
        selectCandidates json providers serviceName body fallbackLevel = best.map Peer.id) ↔
      (∀ p ∈ providers, providerTier json body serviceName p.service = 3 → Leads json body serviceName p.service) ∧
      ((∀ p ∈ providers, providerTier json body serviceName p.service ≠ 3) →
        ∀ p ∈ providers, providerTier json body serviceName p.service = 2 → Leads json body serviceName p.service)) ∧
    ∀ lower higher, lower ≤ higher → selectCandidates json providers serviceName body lower ≠ [] →
      selectCandidates json providers serviceName body higher = selectCandidates json providers serviceName body lower := by
  constructor
  · have lead : ∀ p : Peer, ∀ k, 0 < k → providerTier json body serviceName p.service = k →
        (providerMatch json body serviceName p.service = k ↔ Leads json body serviceName p.service) := by
      rintro p k matched rfl
      exact (leads_iff matched).symm
    simp only [selectCandidates_eq]
    rw [pickTier_first_iff Peer.id (fun p : Peer => (providerMatch_le p.service).1) (fun p => providerTier_le p.service)
      (fun p => (providerMatch_le p.service).2)]
    refine and_congr (forall₃_congr (fun p _ best => lead p 3 (by omega) best))
      (forall_congr' (fun _ => forall₃_congr (fun p _ best => lead p 2 (by omega) best)))
  · intro lower higher raise some
    rw [selectCandidates_eq] at some ⊢
    rw [selectCandidates_eq, pickTier_raise raise (fun empty => some (by rw [empty]; rfl))]

namespace Hidden

/-- A worker with two services of one name, the more general of them first. -/
def worker : Peer where
  id := "worker"
  connected := true
  service := [{ name := "llm", identityGroup := ["all"] }, { name := "llm", identityGroup := ["model=gpt4"] }]

/-- Reads the body `{"model":"gpt4"}`. -/
def json : JsonParser where
  has body key := body = "\x7b\"model\":\"gpt4\"\x7d" && key = "model"
  getString body key := if body = "\x7b\"model\":\"gpt4\"\x7d" ∧ key = "model" then some "gpt4" else none
  marshal _ _ := ""

end Hidden

open Hidden in
/-- The worker serves the model, but no candidate is found for a request that asks for it. -/
theorem selectCandidates_not_best_tier : ¬ ∀ (json : JsonParser) providers serviceName body fallbackLevel, ∃ best,
    IsBestTier (fun p : Peer => providerTier json body serviceName p.service) providers fallbackLevel best ∧
    selectCandidates json providers serviceName body fallbackLevel = best.map Peer.id := by
  intro every
  obtain ⟨best, isBest, same⟩ := every json [worker] "llm" "\x7b\"model\":\"gpt4\"\x7d" 0
  rw [isBestTier_iff.mp isBest] at same
  exact absurd same (by decide +kernel)

end OpenTela
