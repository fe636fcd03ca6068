import OpenTela.Dag.Sturdy

namespace OpenTela

section Heights

variable {heads heads' : Store Cid ℕ}

theorem le_foldr_max {entries : List (Sigma (fun _ : Cid => ℕ))} {e : Sigma (fun _ : Cid => ℕ)} (member : e ∈ entries) :
    e.2 ≤ entries.foldr (fun e height => max e.2 height) 0 := by
  induction entries with
  | nil => cases member
  | cons first rest ih =>
    simp only [List.foldr_cons]
    rcases List.mem_cons.mp member with rfl | later
    · omega
    · have bound := ih later
      omega

theorem foldr_max_le {entries : List (Sigma (fun _ : Cid => ℕ))} {bound : ℕ} (below : ∀ e ∈ entries, e.2 ≤ bound) :
    entries.foldr (fun e height => max e.2 height) 0 ≤ bound := by
  induction entries with
  | nil => exact Nat.zero_le _
  | cons first rest ih =>
    have head := below first (List.mem_cons_self ..)
    have tail := ih (fun e member => below e (List.mem_cons_of_mem _ member))
    simp only [List.foldr_cons]
    omega

theorem le_maxHeight {c : Cid} {height : ℕ} (found : heads.lookup c = some height) : height ≤ maxHeight heads :=
  le_foldr_max (e := ⟨c, height⟩) (AList.mem_lookup_iff.mp found)

/-- Where every head is matched by one that is at least as high, the maximum does not fall. -/
theorem maxHeight_le (matched : ∀ c height, heads.lookup c = some height →
    ∃ c' height', heads'.lookup c' = some height' ∧ height ≤ height') : maxHeight heads ≤ maxHeight heads' := by
  refine foldr_max_le (fun e member => ?_)
  obtain ⟨c', height', found, above⟩ := matched e.1 e.2 (AList.mem_lookup_iff.mpr member)
  exact above.trans (le_maxHeight found)

end Heights

/-- `a` is `b` or can be reached from it along links. -/
def Net.Below (net : Net) : Cid → Cid → Prop := Relation.ReflTransGen (fun a b => a ∈ net.links b)

/-- Every block's priority exceeds that of each block it links to. -/
structure Net.Honest (net : Net) : Prop where
  higher : ∀ c, ∀ l ∈ net.links c, net.priority l < net.priority c

theorem Net.Below.refl (net : Net) (c : Cid) : net.Below c c := Relation.ReflTransGen.refl

theorem Net.Below.link {net : Net} {node root child : Cid} (below : net.Below node root) (member : child ∈ net.links node) :
    net.Below child root :=
  Relation.ReflTransGen.head member below

theorem Net.Below.trans {net : Net} {a b c : Cid} (first : net.Below a b) (second : net.Below b c) : net.Below a c :=
  Relation.ReflTransGen.trans first second

theorem Net.Honest.priority_le {net : Net} (honest : net.Honest) {a b : Cid} (below : net.Below a b) :
    net.priority a ≤ net.priority b := by
  induction below with
  | refl => exact Nat.le_refl _
  | tail _ link ih => exact ih.trans (honest.higher _ _ link).le

/-- The walk's root comes with its own priority, and stands above what is walked. -/
def Net.FitTask (net : Net) : Task → Prop
  | .job _ root rootPrio node => rootPrio = net.priority root ∧ net.Below node root
  | _ => True

/-- Heads are given their own heights, and are replaced by blocks above them. -/
def Net.Fit (net : Net) : DagOp → Prop
  | .set o => o.sound
  | .addHead c height => height = net.priority c
  | .replaceHead h c height => height = net.priority c ∧ net.Below h c
  | .go task => net.FitTask task
  | _ => True

/-- A branch that is walked for a head starts at that head. -/
def WalksOwn : (o : DagOp) → o.Res → Prop
  | .branch head c, _ => head = c
  | _, _ => True

def Net.canOwn (net : Net) (o : DagOp) (r : o.Res) : Prop := net.can o r ∧ WalksOwn o r

theorem Net.body_fit {net : Net} (honest : net.Honest) {task : Task} (fit : net.FitTask task) :
    Obeys net.canOwn net.Fit (fun _ => True) (net.body task) := by
  have possible : ∀ (o : DagOp) (r : o.Res), net.canOwn o r → net.can o r := fun _ _ answered => answered.1
  have plain : ∀ o : DagOp, o.Plain → net.Fit o := by
    intro o isPlain
    cases o with
    | set | addHead | replaceHead | go => exact isPlain.elim
    | _ => trivial
  have link : ∀ c, ∀ child ∈ net.links c, net.Below child c := fun c _ member => (Net.Below.refl net c).link member
  have published : ∀ elements tombstones, Obeys net.canOwn net.Fit (fun _ => True) (publish net elements tombstones) :=
    fun _ _ => publish_obeys possible plain (fun _ sound => sound) (fun _ => trivial) (fun _ => trivial) (fun _ => rfl)
      (fun c child member => ⟨rfl, link c child member⟩) (fun _ _ _ => trivial)
  cases task with
  | receive heads => exact handleNext_obeys plain heads (fun _ => rfl) (fun _ => trivial)
  | head c => exact processHead_obeys possible plain trivial (fun _ => ⟨rfl, .refl net c⟩)
  | job session root rootPrio node =>
    obtain ⟨rfl, below⟩ := fit
    refine dagWorker_obeys possible plain (fun _ sound => sound) trivial trivial rfl
      (fun child member => ⟨rfl, below.link member⟩) (fun _ _ => trivial) trivial (fun first here child member => ?_)
    -- Only a block without links has priority 0.
    have positive : net.priority root ≠ 0 := by
      have lower := honest.higher node first here
      have bound := honest.priority_le below
      omega
    rw [if_neg positive]
    exact ⟨rfl, below.link member⟩
  | repairTimer => exact repair_obeys plain (fun _ _ => trivial)
  | repairCall => exact repairDAG_obeys plain (fun _ _ => trivial)
  | sweep nodes queued =>
    refine repairDAG_loop_obeys possible plain nodes queued trivial (fun _ _ => trivial) ?_ (fun _ _ => trivial)
    rintro head c session ⟨_, own⟩
    obtain rfl : head = c := own
    exact ⟨rfl, .refl net head⟩
  | put key value => exact published _ _
  | delete key =>
    refine (set_obeys possible (fun _ sound => sound) (rmv_sound key)).next (fun tombstones _ => ?_)
    split
    · exact Obeys.ret trivial
    · exact published _ _

/-- Every head carries the priority of its own block. -/
def HeightsTrue (net : Net) (heads : Store Cid ℕ) : Prop :=
  ∀ c height, heads.lookup c = some height → height = net.priority c

/-- What an operation does to the head set. -/
theorem Net.exec_heads {net : Net} {i : ℕ} {choice : Choice} {o : DagOp} {w w' : Replica} {r : o.Res}
    (executed : net.exec i choice o w = some (r, w')) :
    w'.heads = w.heads ∨ (∃ c height, o = .addHead c height ∧ w'.heads = w.heads.insert c height) ∨
      ∃ h c height, o = .replaceHead h c height ∧ w'.heads = (w.heads.erase h).insert c height := by
  cases o with
  | addHead c height =>
    obtain ⟨_, rfl⟩ := Prod.mk.inj (Option.some.inj executed)
    exact Or.inr (Or.inl ⟨c, height, rfl, rfl⟩)
  | replaceHead h c height =>
    obtain ⟨_, rfl⟩ := Prod.mk.inj (Option.some.inj executed)
    exact Or.inr (Or.inr ⟨h, c, height, rfl, rfl⟩)
  | set so =>
    obtain ⟨u, _, rfl⟩ := Net.exec_set executed
    exact Or.inl rfl
  | enterMerge | markProcessed | visit | dequeue | markDirty | markClean =>
    obtain ⟨_, rfl⟩ := Prod.mk.inj (Option.some.inj executed)
    exact Or.inl rfl
  | _ => exact Or.inl (Net.exec_alike executed trivial).heads

/-- A fit operation keeps the heights true, and every head stays or gives way to one above it. -/
theorem Net.Fit.heads {net : Net} {i : ℕ} {choice : Choice} {o : DagOp} {w w' : Replica} {r : o.Res} (fit : net.Fit o)
    (truth : HeightsTrue net w.heads) (executed : net.exec i choice o w = some (r, w')) :
    HeightsTrue net w'.heads ∧ ∀ c height, w.heads.lookup c = some height →
      ∃ c' height', w'.heads.lookup c' = some height' ∧ net.Below c c' := by
  rcases Net.exec_heads executed with same | ⟨c, height, rfl, added⟩ | ⟨h, c, height, rfl, replaced⟩
  · rw [same]
    exact ⟨truth, fun c height found => ⟨c, height, found, .refl net c⟩⟩
  · obtain rfl : height = net.priority c := fit
    rw [added]
    refine ⟨fun x above found => ?_, fun x above found => ?_⟩
    · by_cases here : x = c
      · subst here
        rw [AList.lookup_insert] at found
        exact (Option.some.inj found).symm
      · rw [AList.lookup_insert_ne here] at found
        exact truth x above found
    · by_cases here : x = c
      · subst here
        exact ⟨x, _, AList.lookup_insert _, .refl net x⟩
      · exact ⟨x, above, by rw [AList.lookup_insert_ne here]; exact found, .refl net x⟩
  · obtain ⟨rfl, below⟩ := fit
    rw [replaced]
    refine ⟨fun x above found => ?_, fun x above found => ?_⟩
    · by_cases here : x = c
      · subst here
        rw [AList.lookup_insert] at found
        exact (Option.some.inj found).symm
      · rw [AList.lookup_insert_ne here] at found
        by_cases gone : x = h
        · subst gone
          rw [AList.lookup_erase] at found
          cases found
        · rw [AList.lookup_erase_ne gone] at found
          exact truth x above found
    · by_cases gone : x = h
      · subst gone
        exact ⟨c, _, AList.lookup_insert _, below⟩
      · by_cases here : x = c
        · subst here
          exact ⟨x, _, AList.lookup_insert _, .refl net x⟩
        · exact ⟨x, above, by rw [AList.lookup_insert_ne here, AList.lookup_erase_ne gone]; exact found, .refl net x⟩

end OpenTela
