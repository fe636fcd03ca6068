import OpenTela.Lib.Separated
import OpenTela.Services.Restoring

namespace OpenTela

inductive RegistryOp where
  | add (svc : Service)
  | remove (key : String)

def RegistryOp.apply (services : List Service) : RegistryOp → List Service
  | add svc => addLocalService svc services
  | remove key => removeLocalService key services

/-- The local services after some additions and removals. -/
def registry (ops : List RegistryOp) : List Service := ops.foldl RegistryOp.apply []

/-- The service was added, and its key was not removed afterwards. -/
def AddedSince (ops : List RegistryOp) (svc : Service) : Prop :=
  ∃ before after, ops = before ++ .add svc :: after ∧ .remove (serviceKey svc) ∉ after

theorem registry_append (ops : List RegistryOp) (op : RegistryOp) : registry (ops ++ [op]) = op.apply (registry ops) := by
  simp only [registry, List.foldl_append, List.foldl_cons, List.foldl_nil]

theorem addedSince_append {ops : List RegistryOp} {op : RegistryOp} {svc : Service} :
    AddedSince (ops ++ [op]) svc ↔ op = .add svc ∨ AddedSince ops svc ∧ op ≠ .remove (serviceKey svc) := by
  constructor
  · rintro ⟨before, after, split, kept⟩
    rcases List.concat_eq_split.mp split with ⟨_, same, _⟩ | ⟨earlier, rfl, same⟩
    · exact Or.inl same.symm
    · have other : op ≠ .remove (serviceKey svc) := by
        rintro rfl
        exact kept (List.mem_append_right _ (List.mem_singleton_self _))
      exact Or.inr ⟨⟨before, earlier, same, fun member => kept (List.mem_append_left _ member)⟩, other⟩
  · rintro (rfl | ⟨⟨before, after, rfl, kept⟩, other⟩)
    · exact ⟨ops, [], rfl, List.not_mem_nil⟩
    · refine ⟨before, after ++ [op], by rw [List.append_assoc, List.cons_append], fun member => ?_⟩
      rcases List.mem_append.mp member with early | last
      · exact kept early
      · exact other (List.mem_singleton.mp last).symm

section Additions

variable {svc : Service} {services : List Service}

theorem addLocalService_keys (svc : Service) (services : List Service) :
    (addLocalService svc services).map serviceKey =
      if serviceKey svc ∈ services.map serviceKey then services.map serviceKey else services.map serviceKey ++ [serviceKey svc] := by
  induction services with
  | nil => rfl
  | cons s rest ih =>
    rw [addLocalService]
    by_cases same : serviceKey s = serviceKey svc
    · rw [if_pos same, List.map_cons, List.map_cons, if_pos (by rw [← same]; exact List.mem_cons_self)]
      rfl
    · rw [if_neg same, List.map_cons, ih, List.map_cons]
      by_cases known : serviceKey svc ∈ rest.map serviceKey
      · rw [if_pos known, if_pos (List.mem_cons_of_mem _ known)]
      · rw [if_neg known, if_neg, List.cons_append]
        intro member
        rcases List.mem_cons.mp member with here | later
        · exact same here.symm
        · exact known later

/-- No group of a key is lost, and none comes in but those of the service. -/
theorem addLocalService_groups {key g : String} :
    (∃ s ∈ addLocalService svc services, serviceKey s = key ∧ g ∈ s.identityGroup) ↔
      (∃ s ∈ services, serviceKey s = key ∧ g ∈ s.identityGroup) ∨ serviceKey svc = key ∧ g ∈ svc.identityGroup := by
  induction services with
  | nil =>
    simp only [addLocalService, List.mem_singleton, exists_eq_left, List.not_mem_nil, false_and, exists_false, false_or]
  | cons s rest ih =>
    rw [addLocalService]
    by_cases same : serviceKey s = serviceKey svc
    · have extended : ∀ groups, serviceKey { s with identityGroup := groups } = serviceKey s := fun _ => rfl
      have gained : g ∈ s.identityGroup ++ svc.identityGroup.filter (fun id => id ∉ s.identityGroup) ↔
          g ∈ s.identityGroup ∨ g ∈ svc.identityGroup := by
        rw [List.mem_append, List.mem_filter, decide_eq_true_iff]
        tauto
      rw [if_pos same, ← same]
      simp only [List.mem_cons, exists_eq_or_imp, extended, gained]
      rw [and_or_left, or_right_comm]
    · rw [if_neg same]
      simp only [List.mem_cons, exists_eq_or_imp, ih]
      exact or_assoc.symm

theorem addLocalService_twice (svc : Service) (services : List Service) :
    addLocalService svc (addLocalService svc services) = addLocalService svc services := by
  have none : ∀ groups : List String, (∀ g ∈ svc.identityGroup, g ∈ groups) →
      groups ++ svc.identityGroup.filter (fun id => id ∉ groups) = groups := by
    intro groups all
    rw [List.append_right_eq_self, List.filter_eq_nil_iff]
    intro g member
    simpa using all g member
  induction services with
  | nil =>
    rw [addLocalService, addLocalService, if_pos rfl, none _ (fun _ member => member)]
  | cons s rest ih =>
    by_cases same : serviceKey s = serviceKey svc
    · have all : ∀ g ∈ svc.identityGroup, g ∈ s.identityGroup ++ svc.identityGroup.filter (fun id => id ∉ s.identityGroup) := by
        intro g member
        rw [List.mem_append, List.mem_filter, decide_eq_true_iff]
        by_cases old : g ∈ s.identityGroup
        · exact Or.inl old
        · exact Or.inr ⟨member, old⟩
      have extended : ∀ groups, serviceKey { s with identityGroup := groups } = serviceKey svc := fun _ => same
      rw [addLocalService, if_pos same, addLocalService, if_pos (extended _), none _ all]
    · rw [addLocalService, if_neg same, addLocalService, if_neg same, ih]

theorem removeLocalService_mem {key : String} {s : Service} :
    s ∈ removeLocalService key services ↔ s ∈ services ∧ serviceKey s ≠ key := by
  rw [removeLocalService, List.mem_filter, decide_eq_true_iff]

end Additions

/-- Each key is there at most once. -/
theorem registry_nodup (ops : List RegistryOp) : ((registry ops).map serviceKey).Nodup := by
  induction ops using List.reverseRecOn with
  | nil => exact List.nodup_nil
  | append_singleton ops op ih =>
    rw [registry_append]
    cases op with
    | add svc =>
      rw [RegistryOp.apply, addLocalService_keys]
      split
      · exact ih
      · rename_i fresh
        exact List.Nodup.append ih (List.nodup_singleton _) (by simpa using fresh)
    | remove key => exact ih.sublist (List.filter_sublist.map serviceKey)

/-- What each addition of a key brings and only a removal of the key takes away is there exactly if an
addition since brought it. -/
theorem registry_since {key : String} (present : List Service → Prop) (brings : Service → Prop) (empty : ¬ present [])
    (own : ∀ svc, brings svc → serviceKey svc = key)
    (add : ∀ svc services, present (addLocalService svc services) ↔ present services ∨ brings svc)
    (remove : ∀ k services, present (removeLocalService k services) ↔ present services ∧ k ≠ key) (ops : List RegistryOp) :
    present (registry ops) ↔ ∃ svc, AddedSince ops svc ∧ brings svc := by
  induction ops using List.reverseRecOn with
  | nil =>
    constructor
    · exact fun member => absurd member empty
    · rintro ⟨svc, ⟨before, after, split, _⟩, _⟩
      simp at split
  | append_singleton ops op ih =>
    rw [registry_append]
    cases op with
    | add svc =>
      rw [RegistryOp.apply, add, ih]
      constructor
      · rintro (⟨s, added, brought⟩ | brought)
        · exact ⟨s, addedSince_append.mpr (Or.inr ⟨added, RegistryOp.noConfusion⟩), brought⟩
        · exact ⟨svc, addedSince_append.mpr (Or.inl rfl), brought⟩
      · rintro ⟨s, added, brought⟩
        rcases addedSince_append.mp added with here | ⟨earlier, _⟩
        · cases here
          exact Or.inr brought
        · exact Or.inl ⟨s, earlier, brought⟩
    | remove removed =>
      rw [RegistryOp.apply, remove, ih]
      constructor
      · rintro ⟨⟨s, added, brought⟩, other⟩
        refine ⟨s, addedSince_append.mpr (Or.inr ⟨added, ?_⟩), brought⟩
        intro same
        cases same
        exact other (own s brought)
      · rintro ⟨s, added, brought⟩
        rcases addedSince_append.mp added with here | ⟨earlier, other⟩
        · cases here
        · exact ⟨⟨s, earlier, brought⟩, fun same => other (by rw [own s brought, same])⟩

/-- The keys are those of the services added since. -/
theorem registry_keys (ops : List RegistryOp) (key : String) :
    key ∈ (registry ops).map serviceKey ↔ ∃ svc, AddedSince ops svc ∧ serviceKey svc = key := by
  refine registry_since (fun services => key ∈ services.map serviceKey) (fun svc => serviceKey svc = key) List.not_mem_nil (fun _ same => same) ?_ ?_ ops
  · intro svc services
    rw [addLocalService_keys]
    split
    · rename_i known
      constructor
      · exact Or.inl
      · rintro (member | rfl)
        · exact member
        · exact known
    · rw [List.mem_append, List.mem_singleton, eq_comm (a := key)]
  · intro k services
    simp only [List.mem_map, removeLocalService_mem]
    constructor
    · rintro ⟨s, ⟨member, other⟩, rfl⟩
      exact ⟨⟨s, member, rfl⟩, other.symm⟩
    · rintro ⟨⟨s, member, rfl⟩, other⟩
      exact ⟨s, ⟨member, other.symm⟩, rfl⟩

theorem registry_groups (ops : List RegistryOp) {s : Service} (member : s ∈ registry ops) (g : String) :
    g ∈ s.identityGroup ↔ ∃ svc, AddedSince ops svc ∧ serviceKey svc = serviceKey s ∧ g ∈ svc.identityGroup := by
  have whole := registry_since (fun services => ∃ t ∈ services, serviceKey t = serviceKey s ∧ g ∈ t.identityGroup)
    (fun svc => serviceKey svc = serviceKey s ∧ g ∈ svc.identityGroup) (by simp) (fun _ brought => brought.1)
    (fun _ _ => addLocalService_groups) ?_ ops
  · rw [← whole]
    constructor
    · exact fun inside => ⟨s, member, rfl, inside⟩
    · rintro ⟨t, among, same, inside⟩
      rwa [← List.inj_on_of_nodup_map (registry_nodup ops) among member same]
  · intro k services
    simp only [removeLocalService_mem]
    constructor
    · rintro ⟨t, ⟨among, other⟩, same, inside⟩
      exact ⟨⟨t, among, same, inside⟩, fun key => other (same.trans key.symm)⟩
    · rintro ⟨⟨t, among, same, inside⟩, other⟩
      exact ⟨t, ⟨among, fun key => other (key.symm.trans same)⟩, same, inside⟩

section Advertised

variable {withdrawn : Finset String}

/-- Behind the local services come the first entries of the keys not seen, without the withdrawn ones. -/
theorem mergeAdvertisedServices_loop_keys {existing merged : List Service} {seen : List String}
    (tracked : ∀ key, key ∈ seen ↔ key ∈ merged.map serviceKey) (nodup : (merged.map serviceKey).Nodup) :
    ((mergeAdvertisedServices.loop withdrawn existing seen merged).map serviceKey).Nodup ∧
      ∀ key, key ∈ (mergeAdvertisedServices.loop withdrawn existing seen merged).map serviceKey ↔
        key ∈ merged.map serviceKey ∨ key ∈ existing.map serviceKey ∧ key ∉ withdrawn := by
  induction existing generalizing seen merged with
  | nil =>
    refine ⟨nodup, fun key => ?_⟩
    simp [mergeAdvertisedServices.loop]
  | cons s rest ih =>
    rw [mergeAdvertisedServices.loop]
    by_cases gone : serviceKey s ∈ withdrawn
    · obtain ⟨once, keys⟩ := ih tracked nodup
      rw [if_pos gone]
      refine ⟨once, fun key => ?_⟩
      rw [keys, List.map_cons, List.mem_cons]
      constructor
      · tauto
      · rintro (here | ⟨rfl | later, kept⟩)
        · exact Or.inl here
        · exact absurd gone kept
        · exact Or.inr ⟨later, kept⟩
    · rw [if_neg gone]
      by_cases known : serviceKey s ∈ seen
      · obtain ⟨once, keys⟩ := ih tracked nodup
        rw [if_pos known]
        refine ⟨once, fun key => ?_⟩
        rw [keys, List.map_cons, List.mem_cons]
        constructor
        · tauto
        · rintro (here | ⟨rfl | later, kept⟩)
          · exact Or.inl here
          · exact Or.inl ((tracked _).mp known)
          · exact Or.inr ⟨later, kept⟩
      · have fresh : serviceKey s ∉ merged.map serviceKey := fun member => known ((tracked _).mpr member)
        have tracked' : ∀ key, key ∈ serviceKey s :: seen ↔ key ∈ (merged ++ [s]).map serviceKey := by
          intro key
          rw [List.mem_cons, tracked, List.map_append, List.mem_append, List.map_singleton, List.mem_singleton]
          exact or_comm
        have nodup' : ((merged ++ [s]).map serviceKey).Nodup := by
          rw [List.map_append]
          exact List.Nodup.append nodup (List.nodup_singleton _) (by simpa using fresh)
        obtain ⟨once, keys⟩ := ih tracked' nodup'
        rw [if_neg known]
        refine ⟨once, fun key => ?_⟩
        rw [keys, List.map_append, List.mem_append, List.map_singleton, List.mem_singleton, List.map_cons, List.mem_cons]
        constructor
        · rintro ((here | rfl) | ⟨later, kept⟩)
          · exact Or.inl here
          · exact Or.inr ⟨Or.inl rfl, gone⟩
          · exact Or.inr ⟨Or.inr later, kept⟩
        · tauto

theorem mergeAdvertisedServices_loop_origin {existing merged : List Service} {seen : List String} {s : Service}
    (member : s ∈ mergeAdvertisedServices.loop withdrawn existing seen merged) : s ∈ merged ∨ s ∈ existing := by
  induction existing generalizing seen merged with
  | nil => exact Or.inl member
  | cons first rest ih =>
    unfold mergeAdvertisedServices.loop at member
    split at member
    · exact (ih member).imp_right (List.mem_cons_of_mem _)
    · split at member
      · exact (ih member).imp_right (List.mem_cons_of_mem _)
      · rcases ih member with here | later
        · rcases List.mem_append.mp here with old | new
          · exact Or.inl old
          · rw [List.mem_singleton.mp new]
            exact Or.inr List.mem_cons_self
        · exact Or.inr (List.mem_cons_of_mem _ later)

variable {locals existing : List Service}

theorem mergeAdvertisedServices_keys (nodup : (locals.map serviceKey).Nodup) :
    ((mergeAdvertisedServices locals existing withdrawn).map serviceKey).Nodup ∧
      ∀ key, key ∈ (mergeAdvertisedServices locals existing withdrawn).map serviceKey ↔
        (key ∈ locals.map serviceKey ∨ key ∈ existing.map serviceKey) ∧ key ∉ withdrawn := by
  have offered : ∀ key, key ∈ (locals.filter (fun s => serviceKey s ∉ withdrawn)).map serviceKey ↔
      key ∈ locals.map serviceKey ∧ key ∉ withdrawn := by
    intro key
    simp only [List.mem_map, List.mem_filter, decide_eq_true_iff]
    constructor
    · rintro ⟨s, ⟨member, kept⟩, rfl⟩
      exact ⟨⟨s, member, rfl⟩, kept⟩
    · rintro ⟨⟨s, member, rfl⟩, kept⟩
      exact ⟨s, ⟨member, kept⟩, rfl⟩
  obtain ⟨once, keys⟩ := @mergeAdvertisedServices_loop_keys withdrawn existing (locals.filter (fun s => serviceKey s ∉ withdrawn))
    ((locals.filter (fun s => serviceKey s ∉ withdrawn)).map serviceKey) (fun _ => Iff.rfl)
    (nodup.sublist (List.filter_sublist.map serviceKey))
  refine ⟨once, fun key => (keys key).trans ?_⟩
  rw [offered]
  tauto

theorem mergeAdvertisedServices_locals {s : Service} (member : s ∈ locals) (offered : serviceKey s ∉ withdrawn) :
    s ∈ mergeAdvertisedServices locals existing withdrawn := by
  obtain ⟨more, eq⟩ := mergeAdvertisedServices_loop_prefix withdrawn existing
    ((locals.filter (fun s => serviceKey s ∉ withdrawn)).map serviceKey) (locals.filter (fun s => serviceKey s ∉ withdrawn))
  rw [mergeAdvertisedServices, eq]
  exact List.mem_append_left _ (List.mem_filter.mpr ⟨member, decide_eq_true offered⟩)

theorem mergeAdvertisedServices_origin {s : Service} (member : s ∈ mergeAdvertisedServices locals existing withdrawn) :
    s ∈ locals ∨ s ∈ existing := by
  rcases mergeAdvertisedServices_loop_origin member with here | there
  · exact Or.inl (List.mem_filter.mp here).1
  · exact Or.inr there

end Advertised

/-- After any additions and removals each key is there once, with the groups added for it since its last
removal, and what is advertised has each key of the local and the other services once, without the
withdrawn ones and with the local entry where there is one. -/
theorem registry_advertised (ops : List RegistryOp) :
    ((registry ops).map serviceKey).Nodup ∧
    (∀ key, key ∈ (registry ops).map serviceKey ↔ ∃ svc, AddedSince ops svc ∧ serviceKey svc = key) ∧
    (∀ s ∈ registry ops, ∀ g, g ∈ s.identityGroup ↔
      ∃ svc, AddedSince ops svc ∧ serviceKey svc = serviceKey s ∧ g ∈ svc.identityGroup) ∧
    (∀ svc, registry (ops ++ [.add svc, .add svc]) = registry (ops ++ [.add svc])) ∧
    ∀ existing withdrawn,
      ((mergeAdvertisedServices (registry ops) existing withdrawn).map serviceKey).Nodup ∧
      (∀ key, key ∈ (mergeAdvertisedServices (registry ops) existing withdrawn).map serviceKey ↔
        (key ∈ (registry ops).map serviceKey ∨ key ∈ existing.map serviceKey) ∧ key ∉ withdrawn) ∧
      (∀ s ∈ registry ops, serviceKey s ∉ withdrawn → s ∈ mergeAdvertisedServices (registry ops) existing withdrawn) ∧
      ∀ s ∈ mergeAdvertisedServices (registry ops) existing withdrawn, s ∈ registry ops ∨ s ∈ existing := by
  refine ⟨registry_nodup ops, registry_keys ops, fun s member g => registry_groups ops member g, ?_, ?_⟩
  · intro svc
    have twice : registry (ops ++ [.add svc, .add svc]) = addLocalService svc (addLocalService svc (registry ops)) := by
      simp only [registry, List.foldl_append, List.foldl_cons, List.foldl_nil, RegistryOp.apply]
    rw [twice, addLocalService_twice, registry_append]
    rfl
  · intro existing withdrawn
    obtain ⟨once, keys⟩ := @mergeAdvertisedServices_keys withdrawn (registry ops) existing (registry_nodup ops)
    exact ⟨once, keys, fun s member offered => mergeAdvertisedServices_locals member offered,
      fun s member => mergeAdvertisedServices_origin member⟩

end OpenTela
