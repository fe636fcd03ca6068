import OpenTela.Lib.Modal
import OpenTela.Crdt.Set

namespace OpenTela

open OpenTela.SetM

/-- Every priority in the store decodes. -/
def Decodes (s : Store Path Bytes) : Prop :=
  ∀ key data, s.lookup (priorityKey key) = some data → ∃ prio, uvarint data = some prio

/-- Every priority in the batch decodes. -/
def Batch.Decodes (b : Batch Path Bytes) : Prop :=
  ∀ key data, (priorityKey key, some data) ∈ b → ∃ prio, uvarint data = some prio

/-- The answers of a set whose priorities decode and whose blocks are all there. -/
def SetOp.can : (o : SetOp) → o.Res → Prop
  | .get path, r => ∀ key data, path = priorityKey key → r = some data → ∃ prio, uvarint data = some prio
  | .fetch _, r => ∃ delta, r = some delta
  | _, _ => True

/-- Only priorities that decode are committed. -/
def SetOp.sound : SetOp → Prop
  | .commit batch => Batch.Decodes batch
  | _ => True

/-- A program of the set that commits nothing unsound and returns a result in `post`. -/
def Sound {α : Type} (post : α → Prop) (p : SetM α) : Prop :=
  Prog.Always SetOp.can (fun _ _ _ => ()) (fun _ o _ _ => o.sound) (fun _ out => ∃ a, out = .ok a ∧ post a) () p

section Stores

variable {s : Store Path Bytes} {b : Batch Path Bytes}

theorem Decodes.apply (stored : Decodes s) (written : Batch.Decodes b) : Decodes (b.apply s) := by
  induction b with
  | nil => exact stored
  | cons write rest ih =>
    obtain ⟨path, value⟩ := write
    have before := ih (fun key data member => written key data (List.mem_cons_of_mem _ member))
    intro key data found
    rw [Batch.lookup_apply_cons] at found
    split at found
    · rename_i here
      subst here
      subst found
      exact written key data (List.mem_cons_self ..)
    · exact before key data found

theorem Batch.Decodes.put (written : Batch.Decodes b) {path : Path} {value : Bytes} (other : ∀ key, path ≠ priorityKey key) :
    Batch.Decodes (b.put path value) := by
  intro key data member
  rcases List.mem_cons.mp member with here | there
  · exact absurd (congrArg Prod.fst here).symm (other key)
  · exact written key data there

theorem Batch.Decodes.delete (written : Batch.Decodes b) {path : Path} : Batch.Decodes (b.delete path) := by
  intro key data member
  rcases List.mem_cons.mp member with here | there
  · exact absurd (congrArg Prod.snd here) (by simp)
  · exact written key data there

theorem Batch.Decodes.setPriority (written : Batch.Decodes b) (key : Key) (prio : ℕ) :
    Batch.Decodes (OpenTela.setPriority b key prio) := by
  intro key' data member
  rcases List.mem_cons.mp member with here | there
  · obtain rfl : data = putUvarint ((prio + 1) % word) := Option.some.inj (congrArg Prod.snd here)
    exact ⟨_, uvarint_putUvarint (Nat.mod_lt _ (by decide))⟩
  · exact written key' data there

end Stores

section Programs

variable {α β : Type} {post : α → Prop}

theorem Sound.pure {a : α} (holds : post a) : Sound post (pure a : SetM α) := ⟨a, rfl, holds⟩

theorem Sound.bind {goal : β → Prop} {p : SetM α} {f : α → SetM β} (first : Sound post p)
    (second : ∀ a, post a → Sound goal (f a)) : Sound goal (p >>= f) := by
  refine Prog.Always.bind (first.mono (fun _ _ _ _ _ safe => safe) ?_)
  rintro _ _ ⟨a, rfl, holds⟩
  exact second a holds

theorem Sound.perform {o : SetOp} (sound : o.sound) : Sound (o.can) (Prog.perform o : SetM o.Res) :=
  fun r possible => ⟨sound, r, rfl, possible⟩

theorem Sound.weaken {goal : α → Prop} {p : SetM α} (sound : Sound post p) (weaker : ∀ a, post a → goal a) : Sound goal p := by
  refine sound.mono (fun _ _ _ _ _ safe => safe) ?_
  rintro _ _ ⟨a, rfl, holds⟩
  exact ⟨a, rfl, weaker a holds⟩

theorem Sound.ensure {p : SetM α} {last : SetM Unit} (first : Sound post p) (second : Sound (fun _ => True) last) :
    Sound post (Prog.ensure last p) := by
  induction p with
  | ret a =>
    obtain ⟨b, same, holds⟩ := first
    cases same
    exact Sound.bind second (fun _ _ => Sound.pure holds)
  | fail e =>
    obtain ⟨b, same, _⟩ := first
    cases same
  | op o next ih => exact fun r possible => ⟨(first r possible).1, ih r (first r possible).2⟩

theorem inTombsKeyID_sound (key : Key) (id : Id) : Sound (fun _ => True) (inTombsKeyID key id) :=
  (Sound.perform (o := .has (tombsKey key id)) trivial).weaken (fun _ _ => trivial)

theorem getPriority_sound (key : Key) : Sound (fun _ => True) (getPriority key) := by
  refine Sound.bind (Sound.perform (o := .get (priorityKey key)) trivial) (fun data possible => ?_)
  cases data with
  | none => exact Sound.pure trivial
  | some data =>
    obtain ⟨prio, decoded⟩ := possible key data rfl rfl
    simp only [decoded]
    exact Sound.pure trivial

theorem keepsCurrent_sound (key : Key) (value : Bytes) (prio curPrio : ℕ) :
    Sound (fun _ => True) (keepsCurrent key value prio curPrio) := by
  unfold keepsCurrent
  split
  · exact Sound.bind (Sound.perform (o := .get (valueKey key)) trivial) (fun _ _ => Sound.pure trivial)
  · exact Sound.pure trivial

theorem setValue_sound {b : Batch Path Bytes} (written : Batch.Decodes b) (key : Key) (id : Id) (value : Bytes) (prio : ℕ) :
    Sound Batch.Decodes (setValue b key id value prio) := by
  refine Sound.bind (inTombsKeyID_sound key id) (fun buried _ => ?_)
  cases buried with
  | true => exact Sound.pure written
  | false =>
    refine Sound.bind (getPriority_sound key) (fun curPrio _ => ?_)
    split
    · exact Sound.pure written
    · refine Sound.bind (keepsCurrent_sound key value prio curPrio) (fun kept _ => ?_)
      cases kept with
      | true => exact Sound.pure written
      | false =>
        refine Sound.bind (Sound.perform (o := .hook (.put key value)) trivial) (fun _ _ => ?_)
        exact Sound.pure ((written.put (by simp)).setPriority key prio)

theorem getDelta_sound (id : Id) : Sound (fun _ => True) (getDelta id) := by
  refine Sound.bind (Sound.perform (o := .fetch id) trivial) (fun found possible => ?_)
  obtain ⟨delta, rfl⟩ := possible
  exact Sound.pure trivial

theorem findBestValue_loop_sound (key : Key) (pending : List Id) (results : List Path) (best : Option Bytes × ℕ) :
    Sound (fun _ => True) (findBestValue.loop key pending results best) := by
  induction results generalizing best with
  | nil => exact Sound.pure trivial
  | cons path rest ih =>
    unfold findBestValue.loop
    split
    · exact ih best
    · rename_i id _
      split
      · exact ih best
      · refine Sound.bind (inTombsKeyID_sound key id) (fun buried _ => ?_)
        cases buried with
        | true => exact ih best
        | false => exact Sound.bind (getDelta_sound id) (fun delta _ => ih _)

theorem findBestValue_sound (key : Key) (pending : List Id) : Sound (fun _ => True) (findBestValue key pending) :=
  Sound.bind (Sound.perform (o := .query (elemsPrefix key)) trivial)
    (fun _ _ => findBestValue_loop_sound key pending _ _)

theorem putElems_loop_sound (id : Id) (prio : ℕ) (elems : List Element) {b : Batch Path Bytes} (written : Batch.Decodes b) :
    Sound Batch.Decodes (putElems.loop id prio elems b) := by
  induction elems generalizing b with
  | nil => exact Sound.pure written
  | cons e rest ih =>
    exact Sound.bind (setValue_sound (written.put (by simp)) e.key id e.value prio) (fun _ more => ih more)

theorem putElems_sound (elems : List Element) (id : Id) (prio : ℕ) : Sound (fun _ => True) (putElems elems id prio) := by
  refine Sound.bind (Sound.perform (o := .lock) trivial) (fun _ _ => ?_)
  refine Sound.ensure ?_ ((Sound.perform (o := .unlock) trivial).weaken (fun _ _ => trivial))
  split
  · exact Sound.pure trivial
  · refine Sound.bind (putElems_loop_sound id prio elems (b := []) (fun _ _ none => by cases none)) (fun b written => ?_)
    exact (Sound.perform (o := .commit b) written).weaken (fun _ _ => trivial)

theorem putTombs_loop_sound (tombs : List Element) {b : TombBatch} (written : Batch.Decodes b.store)
    (paths : ∀ path ∈ b.tombs, ∀ key, path ≠ priorityKey key) :
    Sound (fun b => Batch.Decodes b.writes) (putTombs.loop tombs b) := by
  induction tombs generalizing b with
  | nil =>
    refine Sound.pure (fun key data member => ?_)
    rcases List.mem_append.mp member with tomb | other
    · obtain ⟨path, here, same⟩ := List.mem_map.mp tomb
      exact absurd (congrArg Prod.fst same) (paths path here key)
    · exact written key data other
  | cons e rest ih =>
    refine Sound.bind (findBestValue_sound e.key _) (fun out _ => ?_)
    refine Sound.bind (Sound.perform (o := .now) trivial) (fun t _ => ?_)
    apply ih
    · dsimp only
      split
      · exact written.delete.delete
      · exact (written.put (by simp)).setPriority e.key out.2
    · intro path member key
      rcases List.mem_cons.mp member with rfl | old
      · simp
      · exact paths path old key

theorem runDeleteHooks_sound (keys : List Key) : Sound (fun _ => True) (runDeleteHooks keys) := by
  induction keys with
  | nil => exact Sound.pure trivial
  | cons key rest ih => exact Sound.bind (Sound.perform (o := .hook (.delete key)) trivial) (fun _ _ => ih)

theorem putTombs_sound (tombs : List Element) : Sound (fun _ => True) (putTombs tombs) := by
  unfold putTombs
  split
  · exact Sound.pure trivial
  · refine Sound.bind (putTombs_loop_sound tombs (b := {}) (fun _ _ none => by cases none) (fun _ none => by cases none))
      (fun b written => ?_)
    refine Sound.bind (Sound.perform (o := .commit b.writes) written) (fun _ _ => ?_)
    exact Sound.bind (Sound.perform (o := .range b.deletedElems.keys) trivial) (fun keys _ => runDeleteHooks_sound keys)

/-- `Merge` always returns, on a set whose priorities decode and whose blocks are there. -/
theorem merge_sound (d : Delta) (id : Id) : Sound (fun _ => True) (merge d id) :=
  Sound.bind (putTombs_sound d.tombstones) (fun _ _ => putElems_sound d.elements id d.priority)

theorem rmv_loop_sound (key : Key) (results : List Path) (tombstones : List Element) :
    Sound (fun _ => True) (rmv.loop key results tombstones) := by
  induction results generalizing tombstones with
  | nil => exact Sound.pure trivial
  | cons path rest ih =>
    unfold rmv.loop
    split
    · exact ih tombstones
    · refine Sound.bind (inTombsKeyID_sound key _) (fun buried _ => ?_)
      cases buried with
      | true => exact ih tombstones
      | false => exact ih _

theorem rmv_sound (key : Key) : Sound (fun _ => True) (rmv key) :=
  Sound.bind (Sound.perform (o := .query (elemsPrefix key)) trivial) (fun _ _ => rmv_loop_sound key _ [])

end Programs

end OpenTela
