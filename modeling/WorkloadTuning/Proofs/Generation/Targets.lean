import WorkloadTuning.Proofs.Generation.Acceptance
import WorkloadTuning.Proofs.Resource.Application

/-! Where generated patches go. A template targets the reference of a resource in which a field was
found. Empty parts of a reference may be anything, so the reference may point to an earlier resource
as well, and then it is that one that the patch is applied to. -/

namespace WorkloadTuning

namespace Generator

/-- The selectors find a field in the resource. -/
def FindsIn [RegexEngine] (g : Generator) (r : Resource) : Prop :=
  ∃ matchers fields, g.matchers = .ok matchers ∧ fieldsOf matchers r = .ok fields ∧ fields ≠ []

end Generator

/-- How the templates that were generated for the set are applied to it. -/
structure Generated.IsAddressed [RegexEngine] (generated : Generated) (g : Generator) (set : ResourceSet) :
    Prop where
  /-- A template's target is a resource with a field. It is found again exactly when no earlier
  resource agrees with all that its reference gives. -/
  target : ∀ t ∈ generated.patches, ∃ before r after, set.resources = before ++ r :: after ∧
    t.target = some r.target ∧ g.FindsIn r ∧
    (set.find? r.target = some r ↔ ∀ q ∈ before, r.target.matchesIdentity q.target = false)
  complete : ∀ r ∈ set.resources, r.target.kind ≠ "" → r.target.apiVersion ≠ "" →
    r.target.namespaceName ≠ "" → set.find? r.target = some r
  /-- Rendered templates apply, and they change only what their targets are found as. -/
  applied : ∀ name (trial : Trial) ops, trial.renderPatches (generated.experiment name) = .ok ops →
    ∃ next, set.applyPatches ops = (next, none) ∧ next.targets = set.targets ∧
      (∀ r ∈ set.resources, (∀ t ∈ generated.patches, t.target.bind set.find? ≠ some r) →
        r ∈ next.resources) ∧
      ((∀ t ∈ generated.patches, ∀ r ∈ set.resources, t.target = some r.target →
          set.find? r.target = some r) →
        ∀ r ∈ set.resources, ¬ g.FindsIn r → r ∈ next.resources)

namespace ResourceSet

variable {set : ResourceSet}

theorem eq_of_target_eq (hnodup : set.targets.Nodup) {r q : Resource} (hr : r ∈ set.resources)
    (hq : q ∈ set.resources) (h : r.target = q.target) : r = q :=
  List.inj_on_of_nodup_map hnodup hr hq h

/-- A resource is found by its own reference when no resource before it is. -/
theorem find?_target_iff (hnodup : set.targets.Nodup) {before after : List Resource} {r : Resource}
    (heq : set.resources = before ++ r :: after) :
    set.find? r.target = some r ↔
      ∀ q ∈ before, r.target.matchesIdentity q.target = false := by
  have hself := r.target.matchesIdentity_self
  rw [find?, heq, List.find?_append]
  constructor
  · intro h q hq
    by_contra hmatch
    have hfound : (before.find? fun q => r.target.matchesIdentity q.target).isSome := by
      rw [List.find?_isSome]
      exact ⟨q, hq, by simpa using hmatch⟩
    obtain ⟨p, hp⟩ := Option.isSome_iff_exists.mp hfound
    rw [hp, Option.some_or] at h
    obtain rfl : p = r := Option.some.inj h
    have hmem := List.mem_of_find?_eq_some hp
    rw [targets, heq, List.map_append, List.nodup_append] at hnodup
    exact hnodup.2.2 _ (List.mem_map_of_mem hmem) p.target (by simp) rfl
  · intro h
    have hnone : (before.find? fun q => r.target.matchesIdentity q.target) = none := by
      rw [List.find?_eq_none]
      intro q hq
      rw [h q hq]
      decide
    rw [hnone, Option.none_or, List.find?_cons, hself]

theorem find?_of_complete (hnodup : set.targets.Nodup) {r : Resource} (hr : r ∈ set.resources)
    (hkind : r.target.kind ≠ "") (hversion : r.target.apiVersion ≠ "")
    (hnamespace : r.target.namespaceName ≠ "") : set.find? r.target = some r := by
  obtain ⟨q, hq⟩ := exists_find? hr r.target.matchesIdentity_self
  have hmatch : r.target.matchesIdentity q.target = true :=
    List.find?_some (p := fun q : Resource => r.target.matchesIdentity q.target) hq
  have htarget := ObjectReference.eq_of_matchesIdentity hkind hversion hnamespace hmatch
  rw [hq, eq_of_target_eq hnodup (List.mem_of_find?_eq_some hq) hr htarget]

end ResourceSet

namespace Generator

section Engine
variable [RegexEngine] {g : Generator} {set : ResourceSet} {generated : Generated}

/-- The resource that a template was generated for. -/
theorem exists_resource_of_mem_patches (h : g.generate set = .ok generated) {t : PatchTemplate}
    (ht : t ∈ generated.patches) : t.kind = .strategic ∧
      ∃ r ∈ set.resources, t.target = some r.target ∧ g.FindsIn r := by
  obtain ⟨fields, patches, hfields, hpatches, -, htemplates, -⟩ := generate_eq_ok h
  rw [htemplates] at ht
  obtain ⟨⟨target, patch⟩, hmem, rfl⟩ := List.mem_map.mp ht
  refine ⟨rfl, ?_⟩
  have hfield := patchesOf_forall (P := fun _ => True) (fun _ _ _ _ => trivial)
    (fun _ _ _ _ => trivial) hpatches (target, patch) hmem
  obtain ⟨-, f, hf, rfl⟩ := hfield
  obtain ⟨matchers, hmatchers, r, hr, found, hfound, hmemFound⟩ := exists_of_mem_fields hfields hf
  obtain ⟨m, -, -, -, all, hall, hin⟩ := exists_of_mem_fieldsOf hfound hmemFound
  refine ⟨r, hr, congrArg some (Selector.fields_target hall hin).1, matchers, found, hmatchers,
    hfound, ?_⟩
  exact List.ne_nil_of_mem hmemFound

theorem op_of_mem_renderPatches {name : String} {trial : Trial} {ops : List PatchOperation}
    (hgenerate : g.generate set = .ok generated)
    (h : trial.renderPatches (generated.experiment name) = .ok ops) {op : PatchOperation}
    (hop : op ∈ ops) : op.kind = .strategic ∧
      ∃ t ∈ generated.patches, t.target = some op.target := by
  obtain ⟨bindings, -, h⟩ := bind_eq_ok.mp h
  obtain ⟨t, ht, hrender⟩ := exists_of_mem_mapM h hop
  obtain ⟨data, -, hrender⟩ := bind_eq_ok.mp hrender
  obtain rfl := Except.ok.inj hrender
  obtain ⟨hkind, r, -, htarget, -⟩ := exists_resource_of_mem_patches hgenerate ht
  exact ⟨hkind, t, ht, by simp [htarget]⟩

theorem generate_isAddressed (hnodup : set.targets.Nodup) (h : g.generate set = .ok generated) :
    generated.IsAddressed g set where
  target := by
    intro t ht
    obtain ⟨-, r, hr, htarget, hfinds⟩ := exists_resource_of_mem_patches h ht
    obtain ⟨before, after, heq⟩ := List.append_of_mem hr
    exact ⟨before, r, after, heq, htarget, hfinds, ResourceSet.find?_target_iff hnodup heq⟩
  complete := fun _ hr hkind hversion hnamespace =>
    ResourceSet.find?_of_complete hnodup hr hkind hversion hnamespace
  applied := by
    intro name trial ops hrender
    have hops : ∀ op ∈ ops, op.kind = .strategic ∧
        ∃ t ∈ generated.patches, t.target = some op.target :=
      fun op hop => op_of_mem_renderPatches h hrender hop
    have hfound : ∀ op ∈ ops, ∃ found, set.lookup? op.target = some found := by
      intro op hop
      obtain ⟨-, t, ht, htarget⟩ := hops op hop
      obtain ⟨-, r, hr, hsame, -⟩ := exists_resource_of_mem_patches h ht
      have hop : r.target = op.target := Option.some.inj (hsame.symm.trans htarget)
      obtain ⟨q, hq⟩ := ResourceSet.exists_find? hr r.target.matchesIdentity_self
      exact ⟨q.target, by rw [ResourceSet.lookup?_eq_map_find?, ← hop, hq]; rfl⟩
    obtain ⟨next, happly, htargets, hkeeps⟩ :=
      ResourceSet.applyPatches_keeps (fun op hop => (hops op hop).1) hfound
    have hunfound : ∀ r ∈ set.resources,
        (∀ t ∈ generated.patches, t.target.bind set.find? ≠ some r) → r ∈ next.resources := by
      intro r hr hnone
      apply hkeeps r hr
      intro op hop hlookup
      obtain ⟨-, t, ht, htarget⟩ := hops op hop
      rw [ResourceSet.lookup?_eq_map_find?] at hlookup
      obtain ⟨q, hq, hsame⟩ := Option.map_eq_some_iff.mp hlookup
      obtain rfl := ResourceSet.eq_of_target_eq hnodup (List.mem_of_find?_eq_some hq) hr hsame
      exact hnone t ht (by rw [htarget]; exact hq)
    refine ⟨next, happly, htargets, hunfound, fun hown r hr hfinds => ?_⟩
    apply hunfound r hr
    intro t ht hbind
    obtain ⟨-, q, hq, htarget, hfindsq⟩ := exists_resource_of_mem_patches h ht
    rw [htarget] at hbind
    obtain rfl : q = r := Option.some.inj ((hown t ht q hq htarget).symm.trans hbind)
    exact hfinds hfindsq

end Engine

theorem sample_isAddressed : ResourceSet.targets ⟨[sampleResource]⟩ = [sampleResource.target] ∧
    sampleGenerator.generate ⟨[sampleResource]⟩ = .ok sampleGenerated ∧
    sampleGenerated.IsAddressed sampleGenerator ⟨[sampleResource]⟩ :=
  ⟨rfl, sample_generate, generate_isAddressed (by decide) sample_generate⟩

/-! ### A shadowed resource -/

/-- The second reference leaves the namespace open, so it points to the first resource too. -/
def shadowingResource : Resource where
  target := { apiVersion := "apps/v1", kind := "Deployment", namespaceName := "a", name := "web" }
  tree := .object [
    ("apiVersion", .string "apps/v1"),
    ("kind", .string "Deployment"),
    ("metadata", .object [("namespace", .string "a"), ("name", .string "web")])]

def shadowedResource : Resource where
  target := { apiVersion := "apps/v1", kind := "Deployment", name := "web" }
  tree := .object [
    ("apiVersion", .string "apps/v1"),
    ("kind", .string "Deployment"),
    ("metadata", .object [("name", .string "web")]),
    ("spec", .object [("replicas", .number (.int 2))])]

def shadowedSet : ResourceSet := ⟨[shadowingResource, shadowedResource]⟩

def shadowedGenerator : Generator := addSelector {} (.replicas {})

def shadowedGenerated : Generated where
  parameters := [.integer "replicas" 1 5 2]
  patches := [{
    target := some shadowedResource.target
    patch := .object [("spec", .object [("replicas", .string "\x7b\x7b .Values.replicas \x7d\x7d")])] }]
  metrics := []

def shadowedTrial : Trial where
  spec := { assignments := [{ name := "replicas", value := .int 2 }] }

/-- The only template is for the second resource, and applying it changes the first, in which there
is no field. -/
theorem shadowed_patch_strays : shadowedSet.targets.Nodup ∧
    shadowedGenerator.generate shadowedSet = .ok shadowedGenerated ∧
    shadowedSet.find? shadowedResource.target = some shadowingResource ∧
    ¬ shadowedGenerator.FindsIn shadowingResource ∧
    ∃ ops next, shadowedTrial.renderPatches (shadowedGenerated.experiment "bench") = .ok ops ∧
      shadowedSet.applyPatches ops = (next, none) ∧ shadowingResource ∉ next.resources := by
  refine ⟨by decide, by decide +kernel, by decide, ?_, ?_⟩
  · rintro ⟨matchers, fields, hmatchers, hfields, hne⟩
    have hnone : (shadowedGenerator.matchers >>= fun m => fieldsOf m shadowingResource) = .ok [] := by
      decide +kernel
    rw [hmatchers] at hnone
    exact hne (Except.ok.inj (hfields.symm.trans hnone))
  · refine ⟨[{ target := shadowedResource.target
               data := .object [("spec", .object [("replicas", .number (.int 2))])] }],
      _, by decide +kernel, rfl, by decide +kernel⟩

end Generator

end WorkloadTuning
