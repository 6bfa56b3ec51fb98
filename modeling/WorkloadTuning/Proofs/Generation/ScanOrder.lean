import WorkloadTuning.Proofs.Generation.Operations
import WorkloadTuning.Proofs.Naming.Order

/-! What is generated does not depend on the order in which selectors and resources are gone
through. In another order the same fields are found, the names are made from the same keys, and each
target with fields has a patch. -/

namespace WorkloadTuning

namespace Generator

/-! ### The fields found -/

theorem fieldsOf_perm [RegexEngine] {matchers others : List (Matcher × Selector)} (h : matchers.Perm others)
    {r : Resource} {found : List TunableField} (hfound : fieldsOf matchers r = .ok found) :
    ∃ again, fieldsOf others r = .ok again ∧ found.Perm again := by
  obtain ⟨lists, hlists, hfound⟩ := bind_eq_ok.mp hfound
  obtain rfl := Except.ok.inj hfound
  obtain ⟨again, hagain, hperm⟩ := mapM_perm (h.filter fun m => m.1.selects r) hlists
  exact ⟨again.flatten, bind_eq_ok.mpr ⟨again, hagain, rfl⟩, hperm.flatten⟩

variable {g other : Generator} {set otherSet : ResourceSet}

/-- In another order of the selectors and the resources the same fields are found. -/
theorem fields_perm [RegexEngine] (hselectors : g.selectors.Perm other.selectors)
    (hresources : set.resources.Perm otherSet.resources) {found : List TunableField}
    (hfound : g.fields set = .ok found) :
    ∃ again, other.fields otherSet = .ok again ∧ found.Perm again := by
  obtain ⟨matchers, hmatchers, hfound⟩ := bind_eq_ok.mp hfound
  obtain ⟨parts, hparts, hfound⟩ := bind_eq_ok.mp hfound
  obtain rfl := Except.ok.inj hfound
  obtain ⟨others, hothers, hmatched⟩ := mapM_perm hselectors hmatchers
  obtain ⟨moved, hmoved, hperm⟩ := mapM_perm hresources hparts
  obtain ⟨again, hagain, hsame⟩ := mapM_rel (fun _ _ => fieldsOf_perm hmatched) hmoved
  exact ⟨again.flatten, bind_eq_ok.mpr ⟨others, hothers, bind_eq_ok.mpr ⟨again, hagain, rfl⟩⟩,
    hperm.flatten.trans (List.Perm.flatten_congr hsame)⟩

/-! ### The patches -/

section Patches

variable {namer : Namer} {fields others : List TunableField}
  {patches again : List (ObjectReference × Json)}

/-- The patches are there as soon as each field has its fragment. -/
theorem exists_patchesOf_iff : (∃ patches, patchesOf namer fields = .ok patches) ↔
    ∀ f ∈ fields, ∃ fragment, f.patch namer = .ok fragment := by
  constructor
  · rintro ⟨patches, hpatches⟩ f hf
    obtain ⟨fragments, hfragments, -⟩ := lookup_patchesOf hpatches f.target
    obtain ⟨fragment, -, hfragment⟩ := exists_right_of_mem hfragments
      (List.mem_filter.mpr ⟨hf, decide_eq_true rfl⟩)
    exact ⟨fragment, hfragment⟩
  · intro h
    refine foldlM_ok (fun f hf patches => ?_) []
    obtain ⟨fragment, hfragment⟩ := h f hf
    exact ⟨_, bind_eq_ok.mpr ⟨fragment, hfragment, rfl⟩⟩

/-- The targets with a patch are those of the fields. -/
theorem mem_targets_patchesOf (h : patchesOf namer fields = .ok patches)
    {target : ObjectReference} :
    target ∈ patches.map Prod.fst ↔ ∃ f ∈ fields, f.target = target := by
  constructor
  · intro hmem
    obtain ⟨e, he, rfl⟩ := List.mem_map.mp hmem
    exact (patchesOf_forall (P := fun _ => True) (fun _ _ _ _ => trivial)
      (fun _ _ _ _ => trivial) h e he).2
  · rintro ⟨f, hf, rfl⟩
    obtain ⟨fragments, hfragments, hlookup⟩ := lookup_patchesOf h f.target
    obtain ⟨fragment, hmem, -⟩ := exists_right_of_mem hfragments
      (List.mem_filter.mpr ⟨hf, decide_eq_true rfl⟩)
    cases hpatch : patches.lookup f.target with
    | none =>
      rw [Json.mergeAll_eq_none (hlookup.symm.trans hpatch)] at hmem
      contradiction
    | some patch => exact List.mem_map_of_mem (Dict.mem_of_lookup hpatch)

theorem targets_patchesOf_perm (hperm : fields.Perm others)
    (h : patchesOf namer fields = .ok patches) (hagain : patchesOf namer others = .ok again) :
    (patches.map Prod.fst).Perm (again.map Prod.fst) := by
  rw [List.perm_ext_iff_of_nodup (patchesOf_targets_nodup h) (patchesOf_targets_nodup hagain)]
  intro target
  rw [mem_targets_patchesOf h, mem_targets_patchesOf hagain]
  simp only [hperm.mem_iff]

end Patches

/-! ### The names -/

theorem mem_names_parametersOf {namer : Namer} {fields : List TunableField} {name : String} :
    name ∈ (parametersOf namer fields).map Parameter.name ↔
      ∃ key ∈ fields.flatMap TunableField.nameKeys,
        namer.name key.target key.path key.suffix = name := by
  constructor
  · intro hmem
    obtain ⟨p, hp, rfl⟩ := List.mem_map.mp hmem
    obtain ⟨f, hf, hfield⟩ := exists_of_mem_parametersOf _ fields hp
    have hname := List.mem_map_of_mem (f := Parameter.name) hfield
    rw [TunableField.parameters_names] at hname
    obtain ⟨key, hkey, heq⟩ := List.mem_map.mp hname
    exact ⟨key, List.mem_flatMap.mpr ⟨f, hf, hkey⟩, heq⟩
  · rintro ⟨key, hkey, rfl⟩
    obtain ⟨f, hf, hkey⟩ := List.mem_flatMap.mp hkey
    obtain ⟨suffix, hsuffix, rfl⟩ := List.mem_map.mp hkey
    exact name_mem_parametersOf _ fields hf hsuffix

theorem namerOf_perm {fields others : List TunableField} (h : fields.Perm others) :
    namerOf fields = namerOf others :=
  Namer.ofKeys_eq_of_mem_iff fun _ => (h.flatMap_right _).mem_iff

section Engine
variable [RegexEngine]

/-- Generation finds the key and gives it the name. -/
def Names (g : Generator) (set : ResourceSet) (key : NameKey) (name : String) : Prop :=
  ∃ fields, g.fields set = .ok fields ∧ key ∈ fields.flatMap TunableField.nameKeys ∧
    (namerOf fields).name key.target key.path key.suffix = name

theorem Names.of_perm (hselectors : g.selectors.Perm other.selectors)
    (hresources : set.resources.Perm otherSet.resources) {key : NameKey} {name : String}
    (h : g.Names set key name) : other.Names otherSet key name := by
  obtain ⟨fields, hfields, hkey, hname⟩ := h
  obtain ⟨again, hagain, hperm⟩ := fields_perm hselectors hresources hfields
  refine ⟨again, hagain, (hperm.flatMap_right _).mem_iff.mp hkey, ?_⟩
  rw [← namerOf_perm hperm, hname]

/-! ### The result -/

theorem exists_generate_iff : (∃ generated, g.generate set = .ok generated) ↔
    ∃ fields, g.fields set = .ok fields ∧
      ∀ f ∈ fields, ∃ fragment, f.patch (namerOf fields) = .ok fragment := by
  constructor
  · rintro ⟨generated, h⟩
    obtain ⟨fields, patches, hfields, hpatches, -⟩ := generate_eq_ok h
    exact ⟨fields, hfields, exists_patchesOf_iff.mp ⟨patches, hpatches⟩⟩
  · rintro ⟨fields, hfields, hfragments⟩
    obtain ⟨patches, hpatches⟩ := exists_patchesOf_iff.mpr hfragments
    exact ⟨_, bind_eq_ok.mpr ⟨fields, hfields, bind_eq_ok.mpr ⟨patches, hpatches, rfl⟩⟩⟩

theorem exists_generate_of_perm (hselectors : g.selectors.Perm other.selectors)
    (hresources : set.resources.Perm otherSet.resources)
    (h : ∃ generated, g.generate set = .ok generated) :
    ∃ generated, other.generate otherSet = .ok generated := by
  obtain ⟨fields, hfields, hfragments⟩ := exists_generate_iff.mp h
  obtain ⟨again, hagain, hperm⟩ := fields_perm hselectors hresources hfields
  refine exists_generate_iff.mpr ⟨again, hagain, fun f hf => ?_⟩
  rw [← namerOf_perm hperm]
  exact hfragments f (hperm.mem_iff.mpr hf)

theorem mem_names_of_generated {generated : Generated} (h : g.generate set = .ok generated)
    {name : String} :
    name ∈ generated.parameters.map Parameter.name ↔ ∃ key, g.Names set key name := by
  obtain ⟨fields, -, hfields, -, hparameters, -⟩ := generate_eq_ok h
  rw [hparameters, mem_names_parametersOf]
  constructor
  · rintro ⟨key, hkey, hname⟩
    exact ⟨key, fields, hfields, hkey, hname⟩
  · rintro ⟨key, again, hagain, hkey, hname⟩
    obtain rfl := Except.ok.inj (hfields.symm.trans hagain)
    exact ⟨key, hkey, hname⟩

/-- Selectors and resources in another order: generation succeeds alike, every key is named alike,
and there are the same parameter names and the same targets with a patch. -/
theorem generate_perm (hselectors : g.selectors.Perm other.selectors)
    (hresources : set.resources.Perm otherSet.resources) :
    ((∃ generated, g.generate set = .ok generated) ↔
      ∃ again, other.generate otherSet = .ok again) ∧
    (∀ key name, g.Names set key name ↔ other.Names otherSet key name) ∧
    ∀ generated again, g.generate set = .ok generated → other.generate otherSet = .ok again →
      (∀ name, name ∈ generated.parameters.map Parameter.name ↔ ∃ key, g.Names set key name) ∧
      (generated.parameters.map Parameter.name).Perm (again.parameters.map Parameter.name) ∧
      (generated.patches.map PatchTemplate.target).Perm
        (again.patches.map PatchTemplate.target) := by
  have hnames : ∀ key name, g.Names set key name ↔ other.Names otherSet key name := fun _ _ =>
    ⟨.of_perm hselectors hresources, .of_perm hselectors.symm hresources.symm⟩
  refine ⟨⟨exists_generate_of_perm hselectors hresources,
    exists_generate_of_perm hselectors.symm hresources.symm⟩, hnames, ?_⟩
  intro generated again h hagain
  refine ⟨fun _ => mem_names_of_generated h, ?_, ?_⟩
  · rw [List.perm_ext_iff_of_nodup (names_nodup_of_generated h) (names_nodup_of_generated hagain)]
    intro name
    rw [mem_names_of_generated h, mem_names_of_generated hagain]
    simp only [hnames]
  · obtain ⟨fields, patches, hfields, hpatches, -, htemplates, -⟩ := generate_eq_ok h
    obtain ⟨others, later, hothers, hlater, -, hagainTemplates, -⟩ := generate_eq_ok hagain
    obtain ⟨found, hfound, hperm⟩ := fields_perm hselectors hresources hfields
    obtain rfl := Except.ok.inj (hfound.symm.trans hothers)
    rw [← namerOf_perm hperm] at hlater
    have htargets := (targets_patchesOf_perm hperm hpatches hlater).map some
    simpa only [htemplates, hagainTemplates, List.map_map, Function.comp_def] using htargets

/-! ### Two deployments with like names -/

end Engine

/-- A deployment of that name with replicas and one container. -/
def twin (name : String) : Resource where
  target := { apiVersion := "apps/v1", kind := "Deployment", name }
  tree := .object [
    ("spec", .object [
      ("replicas", .number (.int 2)),
      ("template", .object [("spec", .object [("containers", .array [.object [
        ("name", .string "app"),
        ("resources", .object [("limits", .object [("cpu", .string "1")])])]])])])])]

def twins : ResourceSet := ⟨[twin "a b", twin "a_b"]⟩

def twinGenerator : Generator := (addSelector {} (.replicas {})).addSelector (.containers {})

def twinFields : List TunableField :=
  ["a b", "a_b"].flatMap fun name =>
    [.replicas {
      target := (twin name).target
      path := ⟨[.field "spec", .field "replicas"]⟩
      value := some 2 },
    .container {
      target := (twin name).target
      path := ⟨[.field "spec", .field "template", .field "spec", .field "containers",
        .element "name" "app"]⟩
      cpu := some 1000, memory := none, unit := .mebibytes, synthesized := false }]

/-- The names of the two resources are one once they are sanitized, so their parameters are
numbered. -/
def twinNames : List String :=
  ["deployment_a_b_replicas_1", "deployment_a_b_cpu_1", "deployment_a_b_replicas_2",
    "deployment_a_b_cpu_2"]

theorem twins_fields : twinGenerator.fields twins = .ok twinFields := by
  decide +kernel

theorem twins_namer : namerOf twinFields =
    ⟨(twinFields.flatMap TunableField.nameKeys).zip twinNames⟩ := by
  rw [namerOf, Namer.ofKeys,
    NameKey.sorted_of_pairwise (by decide +kernel) (by decide +kernel)]
  decide +kernel

theorem twins_generate : ∃ generated, twinGenerator.generate twins = .ok generated ∧
    generated.parameters.map Parameter.name = twinNames := by
  have hpatches : ∃ patches, patchesOf (namerOf twinFields) twinFields = .ok patches := by
    rw [twins_namer]
    exact ⟨_, rfl⟩
  have hnames : (parametersOf (namerOf twinFields) twinFields).map Parameter.name = twinNames := by
    rw [twins_namer]
    decide +kernel
  obtain ⟨patches, hpatches⟩ := hpatches
  exact ⟨_, bind_eq_ok.mpr ⟨_, twins_fields, bind_eq_ok.mpr ⟨patches, hpatches, rfl⟩⟩, hnames⟩

/-- The numbers go by the resource and not by the order. -/
theorem twins_generate_perm :
    twinGenerator.selectors.Perm twinGenerator.selectors.reverse ∧
    twins.resources.Perm twins.resources.reverse ∧
    ∃ generated,
      generate ⟨twinGenerator.selectors.reverse, []⟩ ⟨twins.resources.reverse⟩ = .ok generated ∧
      (generated.parameters.map Parameter.name).Perm twinNames := by
  have hselectors := twinGenerator.selectors.reverse_perm.symm
  have hresources := twins.resources.reverse_perm.symm
  obtain ⟨generated, h, hnames⟩ := twins_generate
  obtain ⟨hsucceeds, -, hsame⟩ := @generate_perm twinGenerator
    ⟨twinGenerator.selectors.reverse, []⟩ twins ⟨twins.resources.reverse⟩ _ hselectors hresources
  obtain ⟨again, hagain⟩ := hsucceeds.mp ⟨generated, h⟩
  refine ⟨hselectors, hresources, again, hagain, ?_⟩
  rw [← hnames]
  exact (hsame generated again h hagain).2.1.symm

end Generator

end WorkloadTuning
