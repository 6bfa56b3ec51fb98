import WorkloadTuning.Proofs.FieldPath.Addressing
import WorkloadTuning.Proofs.Generation.Baseline

/-! Replica counts at any path of one resource. Where the structural merge finds the counts that the
path finds, the generated patch restates the tree once it has the baselines, and applying it changes
nothing. A list whose elements the path matches by another key than the name is replaced by the
elements that are patched. -/

namespace WorkloadTuning

open Json
open Template (IsLiteral Restates placeholder)

/-! ### Fragments -/

namespace FieldPath

variable {bindings : Bindings} {tree value fragment : Json} {location : Location} {text : String}
  {whole walked : FieldPath}

/-- A value that is no text does not lie under the name that an element is found by. -/
theorem Holds.ne_mergeKey {items : List Json} {child : Json} {name key : String} {rest : Location}
    (h : Holds (.member key :: rest) child value) (hvalue : value.asString? = none)
    (hchild : findNamed? items name = some child) : key ≠ mergeKey := by
  rintro rfl
  obtain ⟨found, hfound, hrest⟩ := h.tail
  have hname := name?_eq_some_iff.mp (name?_of_findNamed? hchild)
  obtain rfl : string name = found := Option.some.inj (hname.symm.trans hfound)
  cases rest with
  | nil =>
    obtain rfl : string name = value := Option.some.inj hrest.reach
    cases hvalue
  | cons step rest =>
    cases step with
    | member key =>
      obtain ⟨_, heq⟩ := hrest.opens
      cases heq
    | named other =>
      obtain ⟨_, heq, -⟩ := hrest.opens
      cases heq

theorem Holds.restates (h : Holds location tree value) (hvalue : value.asString? = none)
    (htext : Template.renderString bindings text = .ok value)
    (hfragment : fragmentFrom whole walked (string text) (location.map Step.segment) =
      .ok fragment) : Restates bindings tree fragment := by
  induction location generalizing tree walked fragment with
  | nil =>
    obtain rfl := Except.ok.inj hfragment
    obtain rfl : tree = value := Option.some.inj h.reach
    exact .text htext
  | cons step rest ih =>
    obtain ⟨child, hchild, hrest⟩ := h.tail
    obtain ⟨inner, hinner, hfragment⟩ := bind_eq_ok.mp hfragment
    have hbelow := ih hrest hinner
    cases step with
    | member key =>
      obtain rfl := Except.ok.inj hfragment
      obtain ⟨ms, rfl⟩ := h.opens
      refine .of_members (isPlain_single key hbelow.ne_null) fun other found hfound => ?_
      rw [Members.get?_cons] at hfound
      split at hfound
      · next heq =>
        subst heq
        obtain rfl := Option.some.inj hfound
        exact ⟨child, hchild, hbelow⟩
      · cases hfound
    | named name =>
      obtain ⟨items, rfl, hnamed⟩ := h.opens
      have hliteral := h.literal name List.mem_cons_self
      have hname := name?_of_findNamed? hchild
      cases inner with
      | object fields =>
        obtain rfl := Except.ok.inj hfragment
        obtain ⟨key, later, below, rfl, rfl, -⟩ := fragmentFrom_object rfl hinner
        have hkey : mergeKey ≠ key := (hrest.ne_mergeKey hvalue hchild).symm
        obtain ⟨ms, rfl⟩ := hrest.opens
        have hset : Members.setAll [(mergeKey, string name)] [(key, below)] =
            [(mergeKey, string name), (key, below)] := by
          simp [Members.setAll, Members.set, hkey]
        rw [hset]
        have hplain : Members.IsPlain [(mergeKey, string name), (key, below)] := by
          have hget : (object [(key, below)]).enter? (.member key) = some below := by
            simp [enter?, get?, asObject?, Members.get?_cons]
          obtain ⟨found, -, hfound⟩ := hbelow.enter? hget
          exact isPlain_pair hkey (by simp) hfound.ne_null
        refine .of_element ⟨_, rfl, hplain⟩ (name?_element name _) hliteral hnamed hchild
          (.of_members hplain fun other found hfound => ?_)
        rw [Members.get?_cons] at hfound
        split at hfound
        · -- The name is restated by itself.
          next heq =>
          subst heq
          obtain rfl := Option.some.inj hfound
          exact ⟨string name, name?_eq_some_iff.mp hname,
            .text (Template.renderString_literal bindings hliteral)⟩
        · have hget : (object [(key, below)]).enter? (.member other) = some found := hfound
          exact hbelow.enter? hget
      | _ => cases hfragment

theorem LeadsTo.restates {path : FieldPath} (h : path.LeadsTo tree value)
    (hvalue : value.asString? = none) (htext : Template.renderString bindings text = .ok value)
    (hfragment : path.fragment (string text) = .ok fragment) : Restates bindings tree fragment := by
  obtain ⟨location, rfl, hholds⟩ := h
  exact hholds.restates hvalue htext hfragment

theorem LeadsTo.match_literal {path : FieldPath} (h : path.LeadsTo tree value) :
    ∀ text ∈ path.matchValues, IsLiteral text := by
  obtain ⟨location, rfl, hholds⟩ := h
  intro text hmatch
  obtain ⟨segment, hsegment, hvalue⟩ := List.mem_filterMap.mp hmatch
  obtain ⟨step, hstep, rfl⟩ := List.mem_map.mp hsegment
  cases step with
  | member key => cases hvalue
  | named name =>
    obtain rfl := Option.some.inj hvalue
    exact hholds.literal name hstep

end FieldPath

/-! ### Counts -/

namespace ReplicaField

/-- The field is for a count of the resource that is tuned, and the path leads the merge to it. -/
structure IsCount (f : ReplicaField) (r : Resource) (count : Int32) : Prop where
  target : f.target = r.target
  value : f.value = some count
  pos : 0 < count
  leads : f.path.LeadsTo r.tree (ofInt count.toInt)

variable {f : ReplicaField} {r : Resource} {count : Int32}

theorem IsCount.baseline? (h : f.IsCount r count) : f.baseline? = some count := by
  simp only [ReplicaField.baseline?, h.value, Option.getD_some, if_pos h.pos]

theorem IsCount.suffix_mem (h : f.IsCount r count) :
    suffix ∈ (TunableField.replicas f).suffixes := by
  simp [TunableField.suffixes, suffixes, h.baseline?]

theorem IsCount.parameters (h : f.IsCount r count) (namer : Namer) :
    ∃ p ∈ (TunableField.replicas f).parameters namer,
      p.name = namer.name f.target f.path suffix ∧ p.baseline = some (.int count) := by
  refine ⟨.integer (namer.name f.target f.path suffix) 1 (max count 5) count, ?_, rfl, rfl⟩
  simp [TunableField.parameters, ReplicaField.parameters, h.baseline?]

/-- With the count bound to its parameter the fragment restates the tree. -/
theorem IsCount.restates (h : f.IsCount r count) {namer : Namer} {bindings : Bindings}
    (hplain : IsPlainName (namer.name f.target f.path suffix))
    (hbound : bindings.get? (namer.name f.target f.path suffix) = some (.int count))
    {fragment : Json} (hfragment : (TunableField.replicas f).patch namer = .ok fragment) :
    Restates bindings r.tree fragment := by
  have hpatch := mapError_eq_ok.mp hfragment
  simp only [ReplicaField.patch, h.baseline?] at hpatch
  exact h.leads.restates rfl (Template.renderString_placeholder hplain hbound) hpatch

end ReplicaField

namespace ReplicaSelector

variable {s : ReplicaSelector} {r : Resource}

/-- Where counts are not created, each field has a count that the path finds. -/
theorem value_of_fieldAt (hcreate : s.create = false) {target : ObjectReference} {path : FieldPath}
    {value : Option Json} {f : ReplicaField} (h : s.fieldAt target path value = .ok (some f)) :
    ∃ count : Int32, value = some (ofInt count.toInt) ∧ f = ⟨target, path, some count⟩ := by
  unfold fieldAt at h
  split at h
  · rw [hcreate] at h
    cases Except.ok.inj h
  · next found hfound =>
    obtain ⟨rfl, -⟩ := Option.filter_eq_some_iff.mp hfound
    split at h
    · next i hi =>
      split at h
      · next hfits =>
        obtain rfl := Option.some.inj (Except.ok.inj h)
        refine ⟨Int32.ofInt i, ?_, rfl⟩
        simp only [fitsInt32, Bool.and_eq_true, decide_eq_true_eq] at hfits
        rw [Int32.toInt_ofInt_of_le hfits.1 (by omega)]
        cases found with
        | number n =>
          cases n with
          | int j =>
            obtain rfl := Option.some.inj hi
            rfl
          | float x => cases hi
        | _ => cases hi
      · cases h
    · cases h

/-- The path leads the merge to everything that it finds in the resource. -/
def ReadsInPlace (s : ReplicaSelector) (r : Resource) : Prop :=
  ∀ path places, FieldPath.parse s.path = .ok path → path.expand r.tree = .ok places →
    ∀ place ∈ places, ∀ value, place.2 = some value → place.1.LeadsTo r.tree value

theorem readsInPlace_of_addresses
    (h : ∀ path, FieldPath.parse s.path = .ok path → path.Addresses r.tree) :
    s.ReadsInPlace r := by
  intro path places hpath hplaces place hplace value hvalue
  exact (h path hpath).leadsTo hplaces hplace hvalue

theorem isCount_of_mem_fields (hcreate : s.create = false) (hplace : s.ReadsInPlace r)
    {found : List ReplicaField} (h : s.fields r = .ok found) {f : ReplicaField} (hf : f ∈ found)
    (htunable : (TunableField.replicas f).suffixes ≠ []) : ∃ count, f.IsCount r count := by
  obtain ⟨path, places, place, hpath, hplaces, hmem, hfield⟩ := exists_of_mem_fields h hf
  obtain ⟨count, hvalue, rfl⟩ := value_of_fieldAt hcreate hfield
  refine ⟨count, rfl, rfl, ?_, hplace path places hpath hplaces place hmem _ hvalue⟩
  by_contra hpos
  apply htunable
  simp [TunableField.suffixes, ReplicaField.suffixes, ReplicaField.baseline?, hpos]

end ReplicaSelector

/-! ### One resource -/

namespace Generator

variable {s : ReplicaSelector} {r : Resource} {fields : List TunableField}

/-- The generator with nothing but that selector. -/
def replicasOnly (s : ReplicaSelector) : Generator :=
  addSelector {} (.replicas s)

theorem isCount_of_mem_fields [RegexEngine] (hcreate : s.create = false)
    (hplace : s.applyDefaults.ReadsInPlace r)
    (hfields : (replicasOnly s).fields ⟨[r]⟩ = .ok fields) {f : TunableField} (hf : f ∈ fields) :
    ∃ g count, f = .replicas g ∧ g.IsCount r count := by
  obtain ⟨matchers, hmatchers, q, hq, part, hpart, hmem⟩ := exists_of_mem_fields hfields hf
  obtain rfl := List.mem_singleton.mp hq
  obtain ⟨m, hm, -, htunable, found, hfound, hf⟩ := exists_of_mem_fieldsOf hpart hmem
  obtain ⟨selector, hselector, hmatcher⟩ := exists_of_mem_mapM hmatchers hm
  obtain rfl := List.mem_singleton.mp hselector
  obtain ⟨criteria, -, rfl⟩ := map_eq_ok.mp hmatcher
  obtain ⟨l, hl, rfl⟩ := map_eq_ok.mp hfound
  obtain ⟨g, hg, rfl⟩ := List.mem_map.mp hf
  obtain ⟨count, hcount⟩ :=
    ReplicaSelector.isCount_of_mem_fields (s := s.applyDefaults) hcreate hplace hl hg htunable
  exact ⟨g, count, rfl, hcount⟩

/-- A count is told apart by its path. -/
theorem eq_of_isCount {f g : ReplicaField} {count other : Int32} (hf : f.IsCount r count)
    (hg : g.IsCount r other) (hpath : f.path = g.path) : f = g := by
  have hsame := hf.leads.unique (hpath ▸ hg.leads)
  have hcount : count = other := Int32.toInt_inj.mp (Number.int.inj (Json.number.inj hsame))
  obtain ⟨target, path, value⟩ := f
  obtain ⟨_, _, _⟩ := g
  obtain rfl := hf.target.trans hg.target.symm
  obtain rfl := hf.value.trans (hcount ▸ hg.value.symm)
  obtain rfl := hpath
  rfl

/-- For a trial with the baselines each patch restates the tree. -/
theorem patches_restate [RegexEngine] {generated : Generated} {trial : Trial}
    {patches : List (ObjectReference × Json)} (hcreate : s.create = false)
    (hplace : s.applyDefaults.ReadsInPlace r)
    (htrial : ∀ p ∈ generated.parameters, trial.assigned.get? p.name = p.baseline)
    (hfields : (replicasOnly s).fields ⟨[r]⟩ = .ok fields)
    (hpatches : patchesOf (namerOf fields) fields = .ok patches)
    (hparameters : generated.parameters = parametersOf (namerOf fields) fields) :
    ∀ e ∈ patches, Restates trial.assigned r.tree e.2 ∧ e.1 = r.target := by
  have hcount := fun {f} (hf : f ∈ fields) => isCount_of_mem_fields hcreate hplace hfields hf
  have hapart : ∀ f ∈ fields, ∀ g ∈ fields, f.target = g.target → f.path = g.path → f = g := by
    intro f hf g hg _ hpath
    obtain ⟨f, count, rfl, hcount⟩ := hcount hf
    obtain ⟨g, other, rfl, hother⟩ := isCount_of_mem_fields hcreate hplace hfields hg
    rw [eq_of_isCount hcount hother hpath]
  intro e he
  obtain ⟨hrestates, f, hf, htarget⟩ := patchesOf_forall (P := Restates trial.assigned r.tree)
    (fun f hf fragment hfragment => by
      obtain ⟨g, count, rfl, hg⟩ := hcount hf
      obtain ⟨p, hp, hname, hbaseline⟩ := hg.parameters (namerOf fields)
      refine hg.restates (name_isPlainName hfields hf hg.suffix_mem) ?_ hfragment
      rw [← hname, htrial p (hparameters ▸ mem_parametersOf hapart hf hp), hbaseline])
    (fun old fragment hold hnew => .merge (.inr hold) hnew) hpatches e he
  obtain ⟨g, count, rfl, hg⟩ := hcount hf
  exact ⟨hrestates, htarget ▸ hg.target⟩

/-- Counts at a path that matches elements by name, in lists of elements told apart by literal names:
a trial with the baselines renders, and applying it gives the resource back. -/
theorem generate_replicas_restores [RegexEngine] (hcreate : s.create = false)
    (haddresses : ∀ path, FieldPath.parse s.applyDefaults.path = .ok path → path.Addresses r.tree)
    {generated : Generated} (h : (replicasOnly s).generate ⟨[r]⟩ = .ok generated) {trial : Trial}
    (htrial : ∀ p ∈ generated.parameters, trial.assigned.get? p.name = p.baseline)
    (name : String) :
    ∃ ops, trial.renderPatches (generated.experiment name) = .ok ops ∧
      ResourceSet.applyPatches ⟨[r]⟩ ops = (⟨[r]⟩, none) := by
  have hplace : s.applyDefaults.ReadsInPlace r :=
    ReplicaSelector.readsInPlace_of_addresses haddresses
  obtain ⟨fields, patches, hfields, hpatches, hparameters, htemplates, -⟩ := generate_eq_ok h
  have hrestates := patches_restate hcreate hplace htrial hfields hpatches hparameters
  -- Rendering.
  have hliteral : (replicasOnly s).LiteralMatches ⟨[r]⟩ := by
    intro found hfound f hf
    obtain ⟨g, count, rfl, hg⟩ := isCount_of_mem_fields hcreate hplace hfound hf
    exact hg.leads.match_literal
  have hbound : ∀ p ∈ generated.parameters, ∃ value, trial.assigned.get? p.name = some value := by
    intro p hp
    rw [htrial p hp]
    rw [hparameters] at hp
    obtain ⟨f, -, hmem⟩ := exists_of_mem_parametersOf _ _ hp
    obtain ⟨value, hbaseline, -⟩ := (f.parameters_isSound _ p hmem).baselineAssignment
    exact ⟨value, hbaseline⟩
  obtain ⟨ops, hops⟩ := Trial.renderPatches_ok (e := generated.experiment name)
    (everyText_of_mem_patches h hliteral) hbound
  have hrendered := Trial.renderPatches_generated htemplates hbound hops
  refine ⟨ops, hops, ?_⟩
  -- Application.
  have hop : ∀ op ∈ ops, op.kind = .strategic ∧ op.target = r.target ∧
      r.tree.merge op.data = r.tree := by
    intro op hmem
    obtain ⟨patch, hpatch, hop⟩ := exists_left_of_mem hrendered hmem
    obtain ⟨hsame, htarget⟩ := hrestates patch hpatch
    exact ⟨hop.kind, hop.target.trans htarget, hsame.merge_render hop.data⟩
  have hkept : r.patchedBy ops = r := by
    unfold Resource.patchedBy
    split
    · rfl
    · next op hfound =>
      obtain ⟨-, -, hsame⟩ := hop op (List.mem_of_find?_eq_some hfound)
      rw [Resource.merge, hsame]
  have happly : ResourceSet.applyPatches ⟨[r]⟩ ops = (⟨[r.patchedBy ops]⟩, none) := by
    refine ResourceSet.applyPatches_own (List.pairwise_singleton _ _) (fun op hmem => (hop op hmem).1)
      (fun op hmem => List.mem_singleton.mpr (hop op hmem).2.1) ?_
    rw [PatchOperation.targets_eq hrendered]
    exact patchesOf_targets_nodup hpatches
  rw [happly, hkept]

/-! ### Samples -/

/-- A resource with a list of counts whose elements are identified under the key. -/
def groupedResource (key : String) : Resource where
  target := { apiVersion := "apps/v1", kind := "Deployment", name := "web" }
  tree := .object [
    ("apiVersion", .string "apps/v1"),
    ("kind", .string "Deployment"),
    ("metadata", .object [("name", .string "web")]),
    ("spec", .object [("groups", .array [
      .object [("zone", .null), (key, .string "a"), ("replicas", .number (.int 2))],
      .object [(key, .string "b"), ("replicas", .number (.int 3))]])])]

/-- The count of the first element. -/
def groupSelector (key : String) : ReplicaSelector :=
  { path := "/spec/groups/[" ++ key ++ "=a]/replicas" }

def groupPatch (key : String) (count : Json) : Json :=
  .object [("spec", .object [("groups", .array [
    .object [(key, .string "a"), ("replicas", count)]])])]

def groupGenerated (key : String) : Generated where
  parameters := [.integer "replicas" 1 5 2]
  patches := [{
    target := some (groupedResource key).target
    patch := groupPatch key (.string "\x7b\x7b .Values.replicas \x7d\x7d") }]
  metrics := []

def groupTrial : Trial where
  spec := { assignments := [{ name := "replicas", value := .int 2 }] }

theorem group_restores : ∃ ops,
    groupTrial.renderPatches ((groupGenerated "name").experiment "bench") = .ok ops ∧
      ResourceSet.applyPatches ⟨[groupedResource "name"]⟩ ops =
        (⟨[groupedResource "name"]⟩, none) := by
  have hparse : FieldPath.parse (groupSelector "name").applyDefaults.path =
      .ok ⟨[.field "spec", .field "groups", .element "name" "a", .field "replicas"]⟩ := by
    decide +kernel
  have haddresses : ∀ path, FieldPath.parse (groupSelector "name").applyDefaults.path = .ok path →
      path.Addresses (groupedResource "name").tree := by
    intro path hpath
    obtain rfl := Except.ok.inj (hparse.symm.trans hpath)
    rintro _ ⟨⟩ _ ⟨⟩ items child ⟨⟩ -
    exact ⟨rfl, by decide, by decide, fun _ _ => trivial⟩
  have hgenerate : (replicasOnly (groupSelector "name")).generate ⟨[groupedResource "name"]⟩ =
      .ok (groupGenerated "name") := by
    decide +kernel
  exact generate_replicas_restores rfl haddresses hgenerate (by decide +kernel) "bench"

/-- An element that is matched by another key is all that is left of its list. -/
theorem group_drops :
    (replicasOnly (groupSelector "id")).generate ⟨[groupedResource "id"]⟩ =
      .ok (groupGenerated "id") ∧
    (∀ p ∈ (groupGenerated "id").parameters, groupTrial.assigned.get? p.name = p.baseline) ∧
    ∃ ops next, groupTrial.renderPatches ((groupGenerated "id").experiment "bench") = .ok ops ∧
      ResourceSet.applyPatches ⟨[groupedResource "id"]⟩ ops = (next, none) ∧
      next.resources.map (fun r => r.tree.follow? ["spec", "groups"]) =
        [some (.array [.object [("id", .string "a"), ("replicas", .number (.int 2))]])] ∧
      next ≠ ⟨[groupedResource "id"]⟩ := by
  refine ⟨by decide +kernel, by decide +kernel, [{
    target := (groupedResource "id").target
    data := groupPatch "id" (.number (.int 2)) }], _, by decide +kernel, rfl,
    by decide +kernel, by decide +kernel⟩

end Generator

end WorkloadTuning
