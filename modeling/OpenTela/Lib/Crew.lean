import OpenTela.Lib.Modal
import Mathlib.Data.List.Basic
import Mathlib.Data.List.Perm.Basic

namespace Prog

/-- What the threads of a system do. The outcome of an operation may depend on a choice made
elsewhere, and some operations start further tasks; others are entered from outside. -/
structure System (Op : Type) (Res : Op → Type) (ε σ Choice Task : Type) where
  exec : ℕ → Choice → (o : Op) → σ → Option (Res o × σ)
  starts : Op → List Task
  body : Task → Prog Op Res ε Unit
  entry : Task → Bool

/-- A task under way, with what is left of it. -/
structure Thread (Op : Type) (Res : Op → Type) (ε Task : Type) where
  task : Task
  prog : Prog Op Res ε Unit

/-- A shared state and any number of threads; a thread's number is its place in the list. -/
structure Crew (Op : Type) (Res : Op → Type) (ε σ Task : Type) where
  state : σ
  threads : List (Thread Op Res ε Task)

variable {Op : Type} {Res : Op → Type} {ε σ Choice Task : Type}

def System.start (sys : System Op Res ε σ Choice Task) (task : Task) : Thread Op Res ε Task := ⟨task, sys.body task⟩

namespace Crew

/-- The crew once thread `i` has moved on to `moved` and started the `new` ones. -/
def after (c : Crew Op Res ε σ Task) (i : ℕ) (s : σ) (moved : Thread Op Res ε Task)
    (new : List (Thread Op Res ε Task)) : Crew Op Res ε σ Task :=
  ⟨s, c.threads.set i moved ++ new⟩

section Threads

variable {c : Crew Op Res ε σ Task} {i j : ℕ} {s : σ} {old moved t : Thread Op Res ε Task}
  {new : List (Thread Op Res ε Task)}

@[simp] theorem after_state : (c.after i s moved new).state = s := rfl

theorem after_at (present : c.threads[i]? = some old) : (c.after i s moved new).threads[i]? = some moved := by
  obtain ⟨bound, _⟩ := List.getElem?_eq_some_iff.mp present
  simp only [after]
  rw [List.getElem?_append_left (by simpa using bound), List.getElem?_set_self bound]

theorem after_other (different : j ≠ i) (present : c.threads[j]? = some t) :
    (c.after i s moved new).threads[j]? = some t := by
  obtain ⟨bound, _⟩ := List.getElem?_eq_some_iff.mp present
  simp only [after]
  rw [List.getElem?_append_left (by simpa using bound), List.getElem?_set_ne (Ne.symm different), present]

/-- A thread of the crew afterwards is the one that moved, one that stood still, or a new one. -/
theorem at_after (present : c.threads[i]? = some old) (found : (c.after i s moved new).threads[j]? = some t) :
    (j = i ∧ t = moved) ∨ (j ≠ i ∧ c.threads[j]? = some t) ∨ (c.threads.length ≤ j ∧ t ∈ new) := by
  by_cases same : j = i
  · subst same
    rw [after_at present] at found
    exact Or.inl ⟨rfl, (Option.some.inj found).symm⟩
  refine Or.inr ?_
  simp only [after] at found
  rw [List.getElem?_append] at found
  split at found
  · rw [List.getElem?_set_ne (Ne.symm same)] at found
    exact Or.inl ⟨same, found⟩
  · rename_i beyond
    simp only [List.length_set, Nat.not_lt] at beyond
    exact Or.inr ⟨beyond, List.mem_of_getElem? found⟩

theorem mem_after (present : c.threads[i]? = some old) (member : t ∈ (c.after i s moved new).threads) :
    t = moved ∨ t ∈ c.threads ∨ t ∈ new := by
  obtain ⟨j, found⟩ := List.mem_iff_getElem?.mp member
  rcases at_after present found with ⟨_, here⟩ | ⟨_, there⟩ | ⟨_, fresh⟩
  · exact Or.inl here
  · exact Or.inr (Or.inl (List.mem_of_getElem? there))
  · exact Or.inr (Or.inr fresh)

theorem moved_mem (present : c.threads[i]? = some old) : moved ∈ (c.after i s moved new).threads :=
  List.mem_of_getElem? (after_at present)

theorem new_mem (fresh : t ∈ new) : t ∈ (c.after i s moved new).threads :=
  List.mem_append_right _ fresh

theorem other_mem (member : t ∈ c.threads.eraseIdx i) : t ∈ (c.after i s moved new).threads := by
  obtain ⟨j, different, found⟩ := List.mem_eraseIdx_iff_getElem?.mp member
  exact List.mem_of_getElem? (after_other different found)

theorem threads_perm (present : c.threads[i]? = some old) : c.threads.Perm (old :: c.threads.eraseIdx i) := by
  obtain ⟨bound, rfl⟩ := List.getElem?_eq_some_iff.mp present
  exact (List.getElem_cons_eraseIdx_perm bound).symm

theorem after_perm (present : c.threads[i]? = some old) :
    (c.after i s moved new).threads.Perm (moved :: (c.threads.eraseIdx i ++ new)) := by
  obtain ⟨bound, _⟩ := List.getElem?_eq_some_iff.mp present
  exact (List.set_perm_cons_eraseIdx bound moved).append_right new

/-- A thread that is no longer there is the one that moved. -/
theorem kept (present : c.threads[i]? = some old) (member : t ∈ c.threads) :
    t = old ∨ t ∈ (c.after i s moved new).threads := by
  obtain ⟨j, found⟩ := List.mem_iff_getElem?.mp member
  by_cases same : j = i
  · subst same
    exact Or.inl (Option.some.inj (found.symm.trans present))
  · exact Or.inr (List.mem_of_getElem? (after_other same found))

end Threads

/-- One move: a task is entered from outside, or a thread performs its next operation. The
operations performed all satisfy `meets`. -/
inductive Step (sys : System Op Res ε σ Choice Task)
    (meets : Crew Op Res ε σ Task → ℕ → Task → (o : Op) → Res o → Prop) :
    Crew Op Res ε σ Task → Crew Op Res ε σ Task → Prop
  | enter {c : Crew Op Res ε σ Task} (task : Task) :
      sys.entry task = true → Step sys meets c ⟨c.state, c.threads ++ [sys.start task]⟩
  | act {c : Crew Op Res ε σ Task} (i : ℕ) (choice : Choice) {task : Task} {o : Op}
      {next : Res o → Prog Op Res ε Unit} {r : Res o} {s : σ} :
      c.threads[i]? = some ⟨task, .op o next⟩ → sys.exec i choice o c.state = some (r, s) → meets c i task o r →
      Step sys meets c (c.after i s ⟨task, next r⟩ ((sys.starts o).map sys.start))

/-- The crews a run leads to from `first`. -/
inductive Reach (sys : System Op Res ε σ Choice Task)
    (meets : Crew Op Res ε σ Task → ℕ → Task → (o : Op) → Res o → Prop) (first : Crew Op Res ε σ Task) :
    Crew Op Res ε σ Task → Prop
  | start : Reach sys meets first first
  | next {c d : Crew Op Res ε σ Task} : Reach sys meets first c → Step sys meets c d → Reach sys meets first d

/-- Nothing is asked of the steps. -/
def Anyhow (_ : Crew Op Res ε σ Task) (_ : ℕ) (_ : Task) (o : Op) (_ : Res o) : Prop := True

theorem Step.mono {sys : System Op Res ε σ Choice Task}
    {meets meets' : Crew Op Res ε σ Task → ℕ → Task → (o : Op) → Res o → Prop} {c d : Crew Op Res ε σ Task}
    (weaker : ∀ c i task o r, meets c i task o r → meets' c i task o r) (step : Step sys meets c d) : Step sys meets' c d := by
  cases step with
  | enter task outside => exact .enter task outside
  | act i choice present executed meeting => exact .act i choice present executed (weaker _ _ _ _ _ meeting)

theorem Reach.mono {sys : System Op Res ε σ Choice Task}
    {meets meets' : Crew Op Res ε σ Task → ℕ → Task → (o : Op) → Res o → Prop} {first c : Crew Op Res ε σ Task}
    (weaker : ∀ c i task o r, meets c i task o r → meets' c i task o r) (reach : Reach sys meets first c) :
    Reach sys meets' first c := by
  induction reach with
  | start => exact .start
  | next _ step ih => exact .next ih (step.mono weaker)

/-- A move as a schedule writes it down. -/
inductive Move (Choice Task : Type) where
  | enter (task : Task)
  | act (i : ℕ) (choice : Choice)

/-- One move, if it is possible and its operation is among the allowed ones. -/
def advance (sys : System Op Res ε σ Choice Task) (allowed : Task → Op → Bool) (c : Crew Op Res ε σ Task) :
    Move Choice Task → Option (Crew Op Res ε σ Task)
  | .enter task => if sys.entry task then some ⟨c.state, c.threads ++ [sys.start task]⟩ else none
  | .act i choice =>
    match c.threads[i]? with
    | some ⟨task, .op o next⟩ =>
      if allowed task o then
        (sys.exec i choice o c.state).map (fun out =>
          c.after i out.2 ⟨task, next out.1⟩ ((sys.starts o).map sys.start))
      else none
    | _ => none

/-- A schedule, played from the left. A move that is not possible is passed over. -/
def play (sys : System Op Res ε σ Choice Task) (allowed : Task → Op → Bool) :
    List (Move Choice Task) → Crew Op Res ε σ Task → Crew Op Res ε σ Task
  | [], c => c
  | move :: rest, c => play sys allowed rest ((c.advance sys allowed move).getD c)

theorem Step.of_advance {sys : System Op Res ε σ Choice Task} {allowed : Task → Op → Bool}
    {meets : Crew Op Res ε σ Task → ℕ → Task → (o : Op) → Res o → Prop} {c d : Crew Op Res ε σ Task} {move : Move Choice Task}
    (meeting : ∀ c i task o r, allowed task o = true → meets c i task o r) (moved : c.advance sys allowed move = some d) :
    Step sys meets c d := by
  cases move with
  | enter task =>
    simp only [advance] at moved
    split at moved
    · rename_i outside
      cases moved
      exact .enter task outside
    · cases moved
  | act i choice =>
    simp only [advance] at moved
    split at moved
    · rename_i task o next present
      split at moved
      · rename_i fine
        obtain ⟨⟨r, s⟩, executed, rfl⟩ := Option.map_eq_some_iff.mp moved
        exact .act i choice present executed (meeting c i task o r fine)
      · cases moved
    · cases moved

theorem Reach.of_play {sys : System Op Res ε σ Choice Task} (allowed : Task → Op → Bool)
    {meets : Crew Op Res ε σ Task → ℕ → Task → (o : Op) → Res o → Prop}
    (meeting : ∀ c i task o r, allowed task o = true → meets c i task o r) (schedule : List (Move Choice Task))
    {first c : Crew Op Res ε σ Task} (reach : Reach sys meets first c) :
    Reach sys meets first (c.play sys allowed schedule) := by
  induction schedule generalizing c with
  | nil => exact reach
  | cons move rest ih =>
    apply ih
    cases moved : c.advance sys allowed move with
    | none => exact reach
    | some d => exact .next reach (.of_advance meeting moved)

/-- One move of a thread, judged by what it does here. -/
theorem Reach.of_turn {sys : System Op Res ε σ Choice Task}
    {meets : Crew Op Res ε σ Task → ℕ → Task → (o : Op) → Res o → Prop} {first c : Crew Op Res ε σ Task} (i : ℕ) (choice : Choice)
    (meeting : ∀ task o next r, c.threads[i]? = some ⟨task, .op o next⟩ → meets c i task o r) (reach : Reach sys meets first c) :
    Reach sys meets first (c.play sys (fun _ _ => true) [.act i choice]) := by
  cases moved : c.advance sys (fun _ _ => true) (.act i choice) with
  | none => simpa [play, moved] using reach
  | some d =>
    simp only [play, moved, Option.getD_some]
    simp only [advance] at moved
    split at moved
    · rename_i task o next present
      obtain ⟨⟨r, s⟩, executed, rfl⟩ := Option.map_eq_some_iff.mp moved
      exact .next reach (.act i choice present executed (meeting task o next r present))
    · cases moved

/-- A thread that is left alone runs to the end of its program. -/
theorem Reach.alone {sys : System Op Res ε σ Choice Task} {first c : Crew Op Res ε σ Task} {i : ℕ} {task : Task} {p : Prog Op Res ε Unit}
    {choices : List Choice} {out : Except ε Unit} {s : σ} (reach : Reach sys Anyhow first c)
    (present : c.threads[i]? = some ⟨task, p⟩) (ran : p.runWith (sys.exec i) choices c.state = some (out, s)) :
    ∃ d, Reach sys Anyhow first d ∧ d.state = s := by
  induction p generalizing c choices with
  | ret a =>
    obtain ⟨_, same⟩ := Prod.mk.inj (Option.some.inj ran)
    exact ⟨c, reach, same⟩
  | fail e =>
    obtain ⟨_, same⟩ := Prod.mk.inj (Option.some.inj ran)
    exact ⟨c, reach, same⟩
  | op o next ih =>
    obtain ⟨choice, rest, r, t, executed, later⟩ := runWith_op ran
    exact ih r (.next reach (.act i choice present executed trivial)) (after_at present) later

/-- So does a task that is entered and then left alone. -/
theorem Reach.entered {sys : System Op Res ε σ Choice Task} {first c : Crew Op Res ε σ Task} {choices : List Choice}
    {out : Except ε Unit} {s : σ} (reach : Reach sys Anyhow first c) (task : Task) (outside : sys.entry task = true)
    (ran : (sys.body task).runWith (sys.exec c.threads.length) choices c.state = some (out, s)) :
    ∃ d, Reach sys Anyhow first d ∧ d.state = s :=
  Reach.alone (.next reach (.enter task outside)) List.getElem?_concat_length ran

/-- Whether every operation of a schedule passes a check on the crew it is performed in. -/
def checked (sys : System Op Res ε σ Choice Task) (check : Crew Op Res ε σ Task → ℕ → Task → Op → Bool) :
    List (Move Choice Task) → Crew Op Res ε σ Task → Bool
  | [], _ => true
  | .enter task :: rest, c => checked sys check rest ((c.advance sys (fun _ _ => true) (.enter task)).getD c)
  | .act i choice :: rest, c =>
    (match c.threads[i]? with
      | some ⟨task, .op o _⟩ => check c i task o
      | _ => true) &&
    checked sys check rest ((c.advance sys (fun _ _ => true) (.act i choice)).getD c)

theorem Reach.of_checked {sys : System Op Res ε σ Choice Task} (check : Crew Op Res ε σ Task → ℕ → Task → Op → Bool)
    {meets : Crew Op Res ε σ Task → ℕ → Task → (o : Op) → Res o → Prop}
    (meeting : ∀ c i task o r, check c i task o = true → meets c i task o r) (schedule : List (Move Choice Task))
    {first c : Crew Op Res ε σ Task} (fine : c.checked sys check schedule = true) (reach : Reach sys meets first c) :
    Reach sys meets first (c.play sys (fun _ _ => true) schedule) := by
  induction schedule generalizing c with
  | nil => exact reach
  | cons move rest ih =>
    cases move with
    | enter task =>
      refine ih fine ?_
      cases outside : sys.entry task with
      | false => simpa [advance, outside] using reach
      | true => simpa [advance, outside] using Reach.next reach (.enter task outside)
    | act i choice =>
      obtain ⟨here, later⟩ := (Bool.and_eq_true _ _).mp fine
      refine ih later ?_
      have moved := Reach.of_turn i choice (fun task o next r present => ?_) reach
      · exact moved
      · simp only [present] at here
        exact meeting c i task o r here

/-- A discipline on operations that every body keeps: the operation just performed is in it,
and so is all that is still to come. -/
theorem always_after (sys : System Op Res ε σ Choice Task) {can : (o : Op) → Res o → Prop} {safe : Op → Prop}
    {c : Crew Op Res ε σ Task} {i : ℕ} {s : σ} {task : Task} {o : Op} {next : Res o → Prog Op Res ε Unit} {r : Res o}
    (present : c.threads[i]? = some ⟨task, .op o next⟩) (answered : can o r)
    (started : safe o → ∀ t ∈ sys.starts o,
      Always can (fun _ _ _ => ()) (fun _ o _ _ => safe o) (fun _ _ => True) () (sys.body t))
    (holds : ∀ t ∈ c.threads, Always can (fun _ _ _ => ()) (fun _ o _ _ => safe o) (fun _ _ => True) () t.prog) :
    safe o ∧ ∀ t ∈ (c.after i s ⟨task, next r⟩ ((sys.starts o).map sys.start)).threads,
      Always can (fun _ _ _ => ()) (fun _ o _ _ => safe o) (fun _ _ => True) () t.prog := by
  obtain ⟨fine, rest⟩ := holds _ (List.mem_of_getElem? present) r answered
  refine ⟨fine, fun t member => ?_⟩
  rcases mem_after present member with rfl | old | new
  · exact rest
  · exact holds t old
  · obtain ⟨task', here, rfl⟩ := List.mem_map.mp new
    exact started fine task' here

theorem always_enter {sys : System Op Res ε σ Choice Task} {can : (o : Op) → Res o → Prop} {safe : Op → Prop}
    {c : Crew Op Res ε σ Task} {task : Task}
    (entered : Always can (fun _ _ _ => ()) (fun _ o _ _ => safe o) (fun _ _ => True) () (sys.body task))
    (holds : ∀ t ∈ c.threads, Always can (fun _ _ _ => ()) (fun _ o _ _ => safe o) (fun _ _ => True) () t.prog) :
    ∀ t ∈ c.threads ++ [sys.start task],
      Always can (fun _ _ _ => ()) (fun _ o _ _ => safe o) (fun _ _ => True) () t.prog := by
  intro t member
  rcases List.mem_append.mp member with old | new
  · exact holds t old
  · rw [List.mem_singleton.mp new]
    exact entered

/-- The threads do only what is safe, by the account the state keeps of each of them, and
there is no account yet of those to come. -/
structure Follows {κ : Type} (can : (o : Op) → Res o → Prop) (learn : κ → (o : Op) → Res o → κ) (safe : κ → Task → Op → Prop)
    (account : σ → ℕ → κ) (idle : κ) (c : Crew Op Res ε σ Task) : Prop where
  threads : ∀ i t, c.threads[i]? = some t →
    Always can learn (fun k o _ _ => safe k t.task o) (fun _ _ => True) (account c.state i) t.prog
  later : ∀ i, c.threads.length ≤ i → account c.state i = idle

section Follows

variable {sys : System Op Res ε σ Choice Task} {κ : Type} {can : (o : Op) → Res o → Prop}
  {learn : κ → (o : Op) → Res o → κ} {safe : κ → Task → Op → Prop} {account : σ → ℕ → κ} {idle : κ} {c : Crew Op Res ε σ Task}

theorem Follows.enter (follows : Follows can learn safe account idle c) {task : Task}
    (body : Always can learn (fun k o _ _ => safe k task o) (fun _ _ => True) idle (sys.body task)) :
    Follows can learn safe account idle ⟨c.state, c.threads ++ [sys.start task]⟩ := by
  refine ⟨fun i t found => ?_, fun i beyond => follows.later i ?_⟩
  · rw [List.getElem?_append] at found
    split at found
    · exact follows.threads i t found
    · rename_i beyond
      obtain rfl := List.mem_singleton.mp (List.mem_of_getElem? found)
      rw [follows.later i (Nat.not_lt.mp beyond)]
      exact body
  · simp only [List.length_append] at beyond
    omega

theorem Follows.act (follows : Follows can learn safe account idle c) {i : ℕ} {task : Task} {o : Op}
    {next : Res o → Prog Op Res ε Unit} {r : Res o} {s : σ} (present : c.threads[i]? = some ⟨task, .op o next⟩)
    (answered : can o r) (noted : account s i = learn (account c.state i) o r)
    (others : ∀ j, j ≠ i → account s j = account c.state j)
    (started : safe (account c.state i) task o → ∀ task ∈ sys.starts o,
      Always can learn (fun k o _ _ => safe k task o) (fun _ _ => True) idle (sys.body task)) :
    safe (account c.state i) task o ∧
      Follows can learn safe account idle (c.after i s ⟨task, next r⟩ ((sys.starts o).map sys.start)) := by
  obtain ⟨fine, rest⟩ := follows.threads i _ present r answered
  obtain ⟨bound, _⟩ := List.getElem?_eq_some_iff.mp present
  refine ⟨fine, fun j t found => ?_, fun j beyond => ?_⟩
  · rw [after_state]
    rcases at_after present found with ⟨rfl, rfl⟩ | ⟨different, there⟩ | ⟨beyond, new⟩
    · rw [noted]
      exact rest
    · rw [others j different]
      exact follows.threads j t there
    · obtain ⟨task', here, rfl⟩ := List.mem_map.mp new
      rw [others j (by omega), follows.later j beyond]
      exact started fine task' here
  · simp only [after, List.length_append, List.length_set] at beyond
    rw [after_state, others j (by omega)]
    exact follows.later j (by omega)

end Follows

/-- The invariant rule: what holds at first and survives every entry and every safe step holds
throughout, when all that runs does only what is safe. -/
theorem Reach.follows {sys : System Op Res ε σ Choice Task}
    {meets : Crew Op Res ε σ Task → ℕ → Task → (o : Op) → Res o → Prop} {first c : Crew Op Res ε σ Task}
    (reach : Reach sys meets first c) {κ : Type} {can : (o : Op) → Res o → Prop} {learn : κ → (o : Op) → Res o → κ}
    (safe : κ → Task → Op → Prop) (account : σ → ℕ → κ) (idle : κ) (holds : Crew Op Res ε σ Task → Prop)
    (begins : holds first) (follows : Follows can learn safe account idle first)
    (bodies : ∀ task, (sys.entry task = true ∨ ∃ k t o, safe k t o ∧ task ∈ sys.starts o) →
      Always can learn (fun k o _ _ => safe k task o) (fun _ _ => True) idle (sys.body task))
    (answers : ∀ c i choice o r s, holds c → sys.exec i choice o c.state = some (r, s) → can o r)
    (books : ∀ c i choice o r s, holds c → sys.exec i choice o c.state = some (r, s) →
      account s i = learn (account c.state i) o r ∧ ∀ j, j ≠ i → account s j = account c.state j)
    (enters : ∀ c task, holds c → holds ⟨c.state, c.threads ++ [sys.start task]⟩)
    (steps : ∀ c i choice task o next r s, holds c → c.threads[i]? = some ⟨task, .op o next⟩ →
      sys.exec i choice o c.state = some (r, s) → meets c i task o r → safe (account c.state i) task o →
      holds (c.after i s ⟨task, next r⟩ ((sys.starts o).map sys.start))) :
    holds c ∧ Follows can learn safe account idle c := by
  induction reach with
  | start => exact ⟨begins, follows⟩
  | next _ step ih =>
    obtain ⟨now, following⟩ := ih
    cases step with
    | enter task outside => exact ⟨enters _ task now, following.enter (bodies task (Or.inl outside))⟩
    | act i choice present executed meeting =>
      obtain ⟨noted, others⟩ := books _ i choice _ _ _ now executed
      obtain ⟨fine, onward⟩ := following.act present (answers _ i choice _ _ _ now executed) noted others
        (fun fine task started => bodies task (Or.inr ⟨_, _, _, fine, started⟩))
      exact ⟨steps _ i choice _ _ _ _ _ now present executed meeting fine, onward⟩

/-- The same when what is safe does not depend on what a thread has done before. -/
theorem Reach.keeps {sys : System Op Res ε σ Choice Task}
    {meets : Crew Op Res ε σ Task → ℕ → Task → (o : Op) → Res o → Prop} {first c : Crew Op Res ε σ Task}
    (reach : Reach sys meets first c) (can : (o : Op) → Res o → Prop) (safe : Task → Op → Prop)
    (holds : Crew Op Res ε σ Task → Prop) (minds : ∀ t ∈ first.threads, Minds can (safe t.task) t.prog) (begins : holds first)
    (bodies : ∀ task, (sys.entry task = true ∨ ∃ t o, safe t o ∧ task ∈ sys.starts o) → Minds can (safe task) (sys.body task))
    (answers : ∀ c i choice o r s, holds c → sys.exec i choice o c.state = some (r, s) → can o r)
    (enters : ∀ c task, holds c → holds ⟨c.state, c.threads ++ [sys.start task]⟩)
    (steps : ∀ c i choice task o next r s, holds c → c.threads[i]? = some ⟨task, .op o next⟩ →
      sys.exec i choice o c.state = some (r, s) → meets c i task o r → safe task o →
      holds (c.after i s ⟨task, next r⟩ ((sys.starts o).map sys.start))) : holds c :=
  (reach.follows (fun _ => safe) (fun _ _ => ()) () holds begins
    ⟨fun _ t found => minds t (List.mem_of_getElem? found), fun _ _ => rfl⟩
    (fun task comes => bodies task (comes.imp_right (fun ⟨_, t, o, fine, started⟩ => ⟨t, o, fine, started⟩))) answers
    (fun _ _ _ _ _ _ _ _ => ⟨rfl, fun _ _ => rfl⟩) enters steps).1

end Crew

end Prog
