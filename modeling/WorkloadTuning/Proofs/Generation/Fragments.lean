import WorkloadTuning.Proofs.FieldPath.Expansion
import WorkloadTuning.Proofs.Generation.Patches
import WorkloadTuning.Proofs.Generation.Settled
import WorkloadTuning.Proofs.Template.Overlay

/-! The fragments of fields at the default paths. Each writes texts at a few spots of a tree, one for
each parameter or two of them alike, and has nothing at all other spots that fields are read from. -/

namespace WorkloadTuning

open Json
open Template (IsLiteral)

namespace Selector

def replicasKeys : List String := ["spec", "replicas"]

def containersKeys : List String := ["spec", "template", "spec", "containers"]

theorem parse_defaultReplicasPath :
    FieldPath.parse defaultReplicasPath = .ok (FieldPath.ofFields replicasKeys) := by
  decide

theorem parse_defaultContainersPath :
    FieldPath.parse defaultContainersPath = .ok (FieldPath.ofFields containersKeys) := by
  decide

end Selector

open Selector (replicasKeys containersKeys)

/-! ### Spots -/

/-- The places in a tree that a field is read from. -/
inductive Spot where
  | metadata
  | replicas
  | element (name : String)
  /-- What a container requests of a resource, or else its limit. -/
  | resource (name : String) (requested : Bool) (suffix : String)
  | entry (name var : String)
  | value (name var : String)

namespace Spot

def declarationKey (requested : Bool) : String :=
  if requested then "requests" else "limits"

def location : Spot → Location
  | metadata => [.member "metadata"]
  | replicas => members replicasKeys
  | element name => members containersKeys ++ [.named name]
  | resource name requested suffix =>
    members containersKeys ++ .named name ::
      members ["resources", declarationKey requested, suffix]
  | entry name var => members containersKeys ++ [.named name, .member "env", .named var]
  | value name var =>
    members containersKeys ++ [.named name, .member "env", .named var, .member "value"]

/-- Spots that hold a value, and not a part of a list. -/
def IsLeaf : Spot → Prop
  | element _ => False
  | entry _ _ => False
  | _ => True

end Spot

/-! ### Documents of one member or one element -/

section Single
variable {key other name : String} {inner item : Json} {rest : Location}

theorem isPlain_single (key : String) (h : inner ≠ .null) : Members.IsPlain [(key, inner)] where
  keys_nodup := by simp [Members.keys]
  ne_null := by
    intro e he
    obtain rfl := List.mem_singleton.mp he
    exact h

theorem isPlain_pair {second : Json} (hkey : key ≠ other) (h : inner ≠ .null)
    (hsecond : second ≠ .null) : Members.IsPlain [(key, inner), (other, second)] where
  keys_nodup := by simp [Members.keys, hkey]
  ne_null := by
    intro e he
    rcases List.mem_cons.mp he with rfl | he
    · exact h
    · obtain rfl := List.mem_singleton.mp he
      exact hsecond

theorem overlays_object {fields : Members} (h : fields.IsPlain)
    (hbelow : ∀ value, fields.get? key = some value → value.Overlays rest) :
    (object fields).Overlays (.member key :: rest) :=
  ⟨⟨fields, rfl, h⟩, hbelow⟩

theorem overlays_single (hne : inner ≠ .null) (h : other = key → inner.Overlays rest) :
    (object [(key, inner)]).Overlays (.member other :: rest) := by
  apply overlays_object (isPlain_single key hne)
  intro value hvalue
  rw [Members.get?_cons] at hvalue
  split at hvalue
  · next heq =>
    obtain rfl := Option.some.inj hvalue
    exact h heq
  · cases hvalue

theorem reach?_object (fields : Members) (key : String) (rest : Location) :
    (object fields).reach? (.member key :: rest) = (fields.get? key).bind (reach? · rest) :=
  rfl

theorem reach?_single (key : String) (inner : Json) (other : String) (rest : Location) :
    (object [(key, inner)]).reach? (.member other :: rest) =
      if other = key then inner.reach? rest else none := by
  rw [reach?_object, Members.get?_cons]
  split <;> rfl

theorem overlays_element (hplain : item.IsPlainObject) (hname : item.name? = some name)
    (hliteral : IsLiteral name) (h : other = name → item.Overlays rest) :
    (array [item]).Overlays (.named other :: rest) := by
  refine ⟨⟨[item], rfl, by simp, ?_⟩, fun value hvalue => ?_⟩
  · refine ⟨by simp, ?_, ?_⟩
    · intro x hx
      obtain rfl := List.mem_singleton.mp hx
      exact hplain
    · intro x hx
      obtain rfl := List.mem_singleton.mp hx
      exact ⟨name, hname, hliteral⟩
  · have hvalue : findNamed? [item] other = some value := hvalue
    rw [findNamed?_cons, hname] at hvalue
    split at hvalue
    · next heq =>
      obtain rfl := Option.some.inj hvalue
      exact h (Option.some.inj heq).symm
    · cases hvalue

theorem reach?_element (hname : item.name? = some name) (other : String) (rest : Location) :
    (array [item]).reach? (.named other :: rest) =
      if other = name then item.reach? rest else none := by
  show (findNamed? [item] other).bind (reach? · rest) = _
  rw [findNamed?_cons, hname]
  by_cases h : other = name
  · simp [h]
  · rw [if_neg (by simpa using Ne.symm h), if_neg h]
    rfl

end Single

/-! ### Fragments for replicas and for containers -/

def replicasPatch (leaf : Json) : Json :=
  .object [("spec", .object [("replicas", leaf)])]

/-- The fragment that merges the members into the container of that name. -/
def elementPatch (name : String) (fields : Members) : Json :=
  .object [("spec", .object [("template", .object [("spec", .object [("containers",
    .array [.object ((mergeKey, .string name) :: fields)])])])])]

theorem fragment_replicas (leaf : Json) :
    (FieldPath.ofFields replicasKeys).fragment leaf = .ok (replicasPatch leaf) :=
  rfl

theorem fragment_resources (name : String) (leaf : Json) :
    ((FieldPath.ofElement containersKeys name).push (.field "resources")).fragment leaf =
      .ok (elementPatch name [("resources", leaf)]) :=
  rfl

theorem fragment_value (name var : String) (leaf : Json) :
    ((((FieldPath.ofElement containersKeys name).push (.field "env")).push
      (.element mergeKey var)).push (.field "value")).fragment leaf =
      .ok (elementPatch name
        [("env", .array [.object [(mergeKey, .string var), ("value", leaf)]])]) :=
  rfl

section Element
variable {name other : String} {fields : Members} {rest : Location}

theorem name?_element (name : String) (fields : Members) :
    (object ((mergeKey, .string name) :: fields)).name? = some name := by
  rw [name?_eq_some_iff]
  show Members.get? _ mergeKey = _
  rw [Members.get?_cons, if_pos rfl]

theorem overlays_elementPatch (hname : IsLiteral name)
    (hplain : Members.IsPlain ((mergeKey, .string name) :: fields))
    (h : other = name → (object ((mergeKey, .string name) :: fields)).Overlays rest) :
    (elementPatch name fields).Overlays (members containersKeys ++ .named other :: rest) := by
  refine overlays_single (by simp) fun _ => overlays_single (by simp) fun _ =>
    overlays_single (by simp) fun _ => overlays_single (by simp) fun _ => ?_
  exact overlays_element ⟨_, rfl, hplain⟩ (name?_element name fields) hname h

theorem reach?_elementPatch (name : String) (fields : Members) (other : String)
    (rest : Location) :
    (elementPatch name fields).reach? (members containersKeys ++ .named other :: rest) =
      if other = name then (object ((mergeKey, .string name) :: fields)).reach? rest else none := by
  show (elementPatch name fields).reach? (.member "spec" :: .member "template" ::
    .member "spec" :: .member "containers" :: .named other :: rest) = _
  simp only [elementPatch, reach?_single, if_true]
  exact reach?_element (name?_element name fields) other rest

theorem reach?_elementPatch_elsewhere (name : String) (fields : Members) :
    (elementPatch name fields).reach? Spot.metadata.location = none ∧
      (elementPatch name fields).reach? Spot.replicas.location = none := by
  constructor
  · show (elementPatch name fields).reach? [.member "metadata"] = none
    rw [elementPatch, reach?_single, if_neg (by decide)]
  · show (elementPatch name fields).reach? [.member "spec", .member "replicas"] = none
    rw [elementPatch, reach?_single, if_pos rfl, reach?_single, if_neg (by decide)]

theorem overlays_elementPatch_elsewhere (name : String) (fields : Members) :
    (elementPatch name fields).Overlays Spot.metadata.location ∧
      (elementPatch name fields).Overlays Spot.replicas.location := by
  constructor
  · exact overlays_single (by simp) fun h => absurd h (by decide)
  · exact overlays_single (by simp) fun _ => overlays_single (by simp) fun h =>
      absurd h (by decide)

end Element

/-! ### The fragment of a field -/

theorem FieldPath.ofElement_inj {keys : List String} {name other : String}
    (h : ofElement keys name = ofElement keys other) : name = other := by
  simpa [ofElement, push] using h

/-- The placeholders of a container's parameters with their units. -/
def ContainerField.texts (f : ContainerField) (namer : Namer) : Members :=
  f.baselines.map fun b =>
    (b.suffix, .string (Template.placeholder (namer.name f.target f.path b.suffix) ++ b.unit))

namespace ContainerField

theorem get?_texts (f : ContainerField) (namer : Namer) (suffix : String) :
    (f.texts namer).get? suffix = (f.baselineFor? suffix).map fun b =>
      .string (Template.placeholder (namer.name f.target f.path b.suffix) ++ b.unit) := by
  rw [texts, baselineFor?]
  induction f.baselines with
  | nil => rfl
  | cons b rest ih =>
    rw [List.map_cons, Members.get?_cons, List.find?_cons]
    by_cases h : suffix = b.suffix
    · simp [h]
    · simp [h, Ne.symm h, ih]

theorem texts_isPlain (f : ContainerField) (namer : Namer) : (f.texts namer).IsPlain where
  keys_nodup := by
    have hkeys : (f.texts namer).keys = f.suffixes := by
      simp [texts, Members.keys, suffixes, Function.comp_def]
    rw [hkeys]
    exact f.suffixes_nodup
  ne_null := by
    intro e he
    obtain ⟨b, -, rfl⟩ := List.mem_map.mp he
    simp

end ContainerField

namespace TunableField

/-- The field lies at the default path of its kind, and its path and name are literal. -/
def IsPlaced : TunableField → Prop
  | replicas f => f.path = .ofFields replicasKeys
  | container f => ∃ name, f.path = .ofElement containersKeys name ∧ IsLiteral name
  | envVar f => ∃ name, f.path = .ofElement containersKeys name ∧ IsLiteral name ∧ IsLiteral f.name

/-- The path of the container that the field belongs to. -/
def element? : TunableField → Option FieldPath
  | replicas _ => none
  | container f => some f.path
  | envVar f => some f.path

/-- The text that the field's fragment has at the spot. -/
def textAt (namer : Namer) : TunableField → Spot → Option String
  | replicas f, .replicas =>
    some (Template.placeholder (namer.name f.target f.path ReplicaField.suffix))
  | container f, .resource name _ suffix =>
    if f.path = .ofElement containersKeys name then
      (f.baselineFor? suffix).map fun b =>
        Template.placeholder (namer.name f.target f.path b.suffix) ++ b.unit
    else none
  | envVar f, .value name var =>
    if f.path = .ofElement containersKeys name ∧ f.name = var then
      some (Template.placeholder (namer.name f.target f.valuePath f.suffix))
    else none
  | _, _ => none

variable {namer : Namer}

theorem patch_replicas {f : ReplicaField} (hplaced : (replicas f).IsPlaced)
    (htunable : f.suffixes ≠ []) : (replicas f).patch namer = .ok (replicasPatch
      (.string (Template.placeholder (namer.name f.target f.path ReplicaField.suffix)))) := by
  have hpath : f.path = .ofFields replicasKeys := hplaced
  simp only [patch, ReplicaField.patch]
  cases hbaseline : f.baseline? with
  | none => simp [ReplicaField.suffixes, hbaseline] at htunable
  | some value =>
    simp only [hpath, fragment_replicas]
    rfl

theorem patch_container {f : ContainerField} {name : String}
    (hpath : f.path = .ofElement containersKeys name) (htunable : f.suffixes ≠ []) :
    (container f).patch namer = .ok (elementPatch name [("resources",
      .object [("limits", .object (f.texts namer)), ("requests", .object (f.texts namer))])]) := by
  have hne : f.baselines.isEmpty = false := by
    simpa [ContainerField.suffixes] using htunable
  simp only [patch, ContainerField.patch, hne, Bool.false_eq_true, if_false]
  rw [hpath, fragment_resources, ← hpath]
  rfl

theorem patch_envVar {f : VariableField} {name : String}
    (hpath : f.path = .ofElement containersKeys name) (htunable : f.suffixes ≠ []) :
    (envVar f).patch namer = .ok (elementPatch name [("env", .array [.object
      [(mergeKey, .string f.name), ("value",
        .string (Template.placeholder (namer.name f.target f.valuePath f.suffix)))]])]) := by
  have hne : f.values.isEmpty = false := by
    cases hvalues : f.values with
    | nil => simp [VariableField.suffixes, hvalues] at htunable
    | cons => rfl
  have hvalue : f.valuePath = (((FieldPath.ofElement containersKeys name).push
      (.field "env")).push (.element mergeKey f.name)).push (.field "value") := by
    rw [VariableField.valuePath, hpath]
  simp only [patch, VariableField.patch, hne, Bool.false_eq_true, if_false]
  generalize Json.string _ = leaf
  rw [hvalue, fragment_value]
  rfl

/-! ### What a fragment has at the spots -/

section Named
variable {name key other : String} {inner : Json} {rest : Location}

theorem overlays_tagged (hkey : mergeKey ≠ key) (hne : inner ≠ .null) (hother : other ≠ mergeKey)
    (h : other = key → inner.Overlays rest) :
    (object [(mergeKey, .string name), (key, inner)]).Overlays (.member other :: rest) := by
  apply overlays_object (isPlain_pair hkey (by simp) hne)
  intro value hvalue
  rw [Members.get?_cons, if_neg hother, Members.get?_cons] at hvalue
  split at hvalue
  · next heq =>
    obtain rfl := Option.some.inj hvalue
    exact h heq
  · cases hvalue

theorem reach?_tagged (hother : other ≠ mergeKey) :
    (object [(mergeKey, .string name), (key, inner)]).reach? (.member other :: rest) =
      if other = key then inner.reach? rest else none := by
  rw [reach?_object, Members.get?_cons, if_neg hother, Members.get?_cons]
  split <;> rfl

theorem reach?_elementPatch_member {member own : String} (hmember : member ≠ mergeKey) :
    (elementPatch own [(key, inner)]).reach?
        (members containersKeys ++ .named other :: .member member :: rest) =
      if other = own ∧ member = key then inner.reach? rest else none := by
  rw [reach?_elementPatch, reach?_tagged hmember]
  by_cases h : other = own
  · simp [h]
  · simp [h]

end Named

theorem overlays_container {texts : Members} {name : String} (hliteral : IsLiteral name)
    (htexts : texts.IsPlain) (spot : Spot) :
    (elementPatch name [("resources",
      .object [("limits", .object texts), ("requests", .object texts)])]).Overlays
      spot.location := by
  have hplain : Members.IsPlain [(mergeKey, .string name), ("resources",
      .object [("limits", .object texts), ("requests", .object texts)])] :=
    isPlain_pair (by decide) (by simp) (by simp)
  obtain ⟨hmetadata, hreplicas⟩ := overlays_elementPatch_elsewhere name [("resources",
    .object [("limits", .object texts), ("requests", .object texts)])]
  cases spot with
  | metadata => exact hmetadata
  | replicas => exact hreplicas
  | element other => exact overlays_elementPatch hliteral hplain fun _ => trivial
  | resource other requested suffix =>
    refine overlays_elementPatch hliteral hplain fun _ =>
      overlays_tagged (by decide) (by simp) (by decide) fun _ => ?_
    apply overlays_object (isPlain_pair (by decide) (by simp) (by simp))
    intro value hvalue
    have hvalue : value = .object texts := by
      cases requested <;>
        simpa [Spot.declarationKey, Members.get?_cons, eq_comm] using hvalue
    rw [hvalue]
    exact overlays_object htexts fun _ _ => trivial
  | entry other var =>
    exact overlays_elementPatch hliteral hplain fun _ =>
      overlays_tagged (by decide) (by simp) (by decide) fun h => absurd h (by decide)
  | value other var =>
    exact overlays_elementPatch hliteral hplain fun _ =>
      overlays_tagged (by decide) (by simp) (by decide) fun h => absurd h (by decide)

theorem overlays_envVar {name own : String} {leaf : Json} (hliteral : IsLiteral name)
    (hown : IsLiteral own) (hleaf : leaf ≠ .null) (spot : Spot) :
    (elementPatch name [("env",
      .array [.object [(mergeKey, .string own), ("value", leaf)]])]).Overlays spot.location := by
  have hplain : Members.IsPlain [(mergeKey, .string name), ("env",
      .array [.object [(mergeKey, .string own), ("value", leaf)]])] :=
    isPlain_pair (by decide) (by simp) (by simp)
  have hentry : Members.IsPlain [(mergeKey, .string own), ("value", leaf)] :=
    isPlain_pair (by decide) (by simp) hleaf
  obtain ⟨hmetadata, hreplicas⟩ := overlays_elementPatch_elsewhere name [("env",
    .array [.object [(mergeKey, .string own), ("value", leaf)]])]
  cases spot with
  | metadata => exact hmetadata
  | replicas => exact hreplicas
  | element other => exact overlays_elementPatch hliteral hplain fun _ => trivial
  | resource other requested suffix =>
    exact overlays_elementPatch hliteral hplain fun _ =>
      overlays_tagged (by decide) (by simp) (by decide) fun h => absurd h (by decide)
  | entry other var =>
    exact overlays_elementPatch hliteral hplain fun _ =>
      overlays_tagged (by decide) (by simp) (by decide) fun _ =>
        overlays_element ⟨_, rfl, hentry⟩ (name?_element own _) hown fun _ => trivial
  | value other var =>
    exact overlays_elementPatch hliteral hplain fun _ =>
      overlays_tagged (by decide) (by simp) (by decide) fun _ =>
        overlays_element ⟨_, rfl, hentry⟩ (name?_element own _) hown fun _ =>
          overlays_object hentry fun _ _ => trivial

theorem overlays_replicas {leaf : Json} (hleaf : leaf ≠ .null) (spot : Spot) :
    (replicasPatch leaf).Overlays spot.location := by
  have hbelow : ∀ rest, (replicasPatch leaf).Overlays (members containersKeys ++ rest) :=
    fun rest => overlays_single (by simp) fun _ => overlays_single hleaf fun h =>
      absurd h (by decide)
  cases spot with
  | metadata => exact overlays_single (by simp) fun h => absurd h (by decide)
  | replicas => exact overlays_single (by simp) fun _ => overlays_single hleaf fun _ => trivial
  | element other => exact hbelow _
  | resource other requested suffix => exact hbelow _
  | entry other var => exact hbelow _
  | value other var => exact hbelow _

theorem reach?_replicasPatch_below (leaf : Json) (rest : Location) :
    (replicasPatch leaf).reach? (members containersKeys ++ rest) = none := by
  show (replicasPatch leaf).reach? (.member "spec" :: .member "template" :: _) = none
  rw [replicasPatch, reach?_single, if_pos rfl, reach?_single, if_neg (by decide)]

variable {f : TunableField} {fragment : Json}

/-- A fragment has the right shape at every spot. -/
theorem overlays_fragment (hplaced : f.IsPlaced) (htunable : f.suffixes ≠ [])
    (h : f.patch namer = .ok fragment) (spot : Spot) : fragment.Overlays spot.location := by
  cases f with
  | replicas f =>
    obtain rfl := Except.ok.inj ((patch_replicas hplaced htunable).symm.trans h)
    exact overlays_replicas (by simp) spot
  | container f =>
    obtain ⟨name, hpath, hliteral⟩ := hplaced
    obtain rfl := Except.ok.inj ((patch_container hpath htunable).symm.trans h)
    exact overlays_container hliteral (f.texts_isPlain namer) spot
  | envVar f =>
    obtain ⟨name, hpath, hliteral, hown⟩ := hplaced
    obtain rfl := Except.ok.inj ((patch_envVar hpath htunable).symm.trans h)
    exact overlays_envVar hliteral hown (by simp) spot

theorem reach?_fragment_replicas {f : ReplicaField} {leaf : String} {spot : Spot}
    (hleaf : spot.IsLeaf)
    (htext : leaf = Template.placeholder (namer.name f.target f.path ReplicaField.suffix)) :
    (replicasPatch (.string leaf)).reach? spot.location =
      ((replicas f).textAt namer spot).map .string := by
  cases spot with
  | metadata =>
    show (replicasPatch _).reach? [.member "metadata"] = none
    rw [replicasPatch, reach?_single, if_neg (by decide)]
  | replicas =>
    show (replicasPatch _).reach? [.member "spec", .member "replicas"] = _
    rw [replicasPatch, reach?_single, if_pos rfl, reach?_single, if_pos rfl, htext]
    rfl
  | resource other requested suffix => exact reach?_replicasPatch_below _ _
  | value other var => exact reach?_replicasPatch_below _ _
  | element other => exact absurd hleaf id
  | entry other var => exact absurd hleaf id

theorem reach?_fragment_container {f : ContainerField} {name : String} {spot : Spot}
    (hleaf : spot.IsLeaf) (hpath : f.path = .ofElement containersKeys name) :
    (elementPatch name [("resources", .object [("limits", .object (f.texts namer)),
        ("requests", .object (f.texts namer))])]).reach? spot.location =
      ((container f).textAt namer spot).map .string := by
  cases spot with
  | metadata => exact (reach?_elementPatch_elsewhere name _).1
  | replicas => exact (reach?_elementPatch_elsewhere name _).2
  | resource other requested suffix =>
    refine (reach?_elementPatch_member (by decide)).trans ?_
    by_cases hother : other = name
    · subst hother
      have htexts := f.get?_texts namer suffix
      have hreach : (object (f.texts namer)).reach? [.member suffix] =
          (f.texts namer).get? suffix := Option.bind_fun_some _
      rw [if_pos ⟨rfl, rfl⟩]
      simp only [textAt, if_pos hpath, Option.map_map]
      cases requested
      · exact hreach.trans htexts
      · exact hreach.trans htexts
    · have hpath' : f.path ≠ .ofElement containersKeys other :=
        fun heq => hother (FieldPath.ofElement_inj (heq.symm.trans hpath))
      rw [if_neg fun h => hother h.1]
      simp [textAt, hpath']
  | value other var =>
    refine (reach?_elementPatch_member (by decide)).trans ?_
    rw [if_neg fun h => absurd h.2 (by decide)]
    rfl
  | element other => exact absurd hleaf id
  | entry other var => exact absurd hleaf id

theorem reach?_fragment_envVar {f : VariableField} {name leaf : String} {spot : Spot}
    (hleaf : spot.IsLeaf) (hpath : f.path = .ofElement containersKeys name)
    (htext : leaf = Template.placeholder (namer.name f.target f.valuePath f.suffix)) :
    (elementPatch name [("env", .array [.object [(mergeKey, .string f.name),
        ("value", .string leaf)]])]).reach? spot.location =
      ((envVar f).textAt namer spot).map .string := by
  cases spot with
  | metadata => exact (reach?_elementPatch_elsewhere name _).1
  | replicas => exact (reach?_elementPatch_elsewhere name _).2
  | resource other requested suffix =>
    refine (reach?_elementPatch_member (by decide)).trans ?_
    rw [if_neg fun h => absurd h.2 (by decide)]
    rfl
  | value other var =>
    refine (reach?_elementPatch_member (by decide)).trans ?_
    rw [reach?_element (name?_element f.name _), reach?_tagged (by decide), if_pos rfl]
    by_cases hother : other = name
    · subst hother
      by_cases hvar : var = f.name
      · simp [textAt, hpath, hvar, htext, reach?]
      · simp [textAt, hvar, Ne.symm hvar]
    · have hpath' : f.path ≠ .ofElement containersKeys other :=
        fun heq => hother (FieldPath.ofElement_inj (heq.symm.trans hpath))
      rw [if_neg fun h => hother h.1]
      simp [textAt, hpath']
  | element other => exact absurd hleaf id
  | entry other var => exact absurd hleaf id

/-- A fragment has its texts at the spots of the field, and at other spots it has none. -/
theorem reach?_fragment (hplaced : f.IsPlaced) (htunable : f.suffixes ≠ [])
    (h : f.patch namer = .ok fragment) {spot : Spot} (hleaf : spot.IsLeaf) :
    fragment.reach? spot.location = (f.textAt namer spot).map .string := by
  cases f with
  | replicas f =>
    obtain rfl := Except.ok.inj ((patch_replicas hplaced htunable).symm.trans h)
    exact reach?_fragment_replicas hleaf rfl
  | container f =>
    obtain ⟨name, hpath, -⟩ := hplaced
    obtain rfl := Except.ok.inj ((patch_container hpath htunable).symm.trans h)
    exact reach?_fragment_container hleaf hpath
  | envVar f =>
    obtain ⟨name, hpath, -, -⟩ := hplaced
    obtain rfl := Except.ok.inj ((patch_envVar hpath htunable).symm.trans h)
    exact reach?_fragment_envVar hleaf hpath rfl

/-- A container that the field does not belong to is not in its fragment. -/
theorem reach?_fragment_element (hplaced : f.IsPlaced) (htunable : f.suffixes ≠ [])
    (h : f.patch namer = .ok fragment) {name : String}
    (hname : f.element? ≠ some (.ofElement containersKeys name)) :
    fragment.reach? (Spot.element name).location = none := by
  cases f with
  | replicas f =>
    obtain rfl := Except.ok.inj ((patch_replicas hplaced htunable).symm.trans h)
    exact reach?_replicasPatch_below _ _
  | container f =>
    obtain ⟨own, hpath, -⟩ := hplaced
    obtain rfl := Except.ok.inj ((patch_container hpath htunable).symm.trans h)
    show (elementPatch own _).reach? (members containersKeys ++ [.named name]) = none
    rw [reach?_elementPatch, if_neg]
    rintro rfl
    exact hname (congrArg some hpath)
  | envVar f =>
    obtain ⟨own, hpath, -, -⟩ := hplaced
    obtain rfl := Except.ok.inj ((patch_envVar hpath htunable).symm.trans h)
    show (elementPatch own _).reach? (members containersKeys ++ [.named name]) = none
    rw [reach?_elementPatch, if_neg]
    rintro rfl
    exact hname (congrArg some hpath)

/-- The entry of a variable is only in the fragment of that variable in that container. -/
theorem reach?_fragment_entry (hplaced : f.IsPlaced) (htunable : f.suffixes ≠ [])
    (h : f.patch namer = .ok fragment) {name var : String}
    (hentry : ∀ field, f = envVar field → field.path = .ofElement containersKeys name →
      field.name ≠ var) :
    fragment.reach? (Spot.entry name var).location = none := by
  cases f with
  | replicas f =>
    obtain rfl := Except.ok.inj ((patch_replicas hplaced htunable).symm.trans h)
    exact reach?_replicasPatch_below _ _
  | container f =>
    obtain ⟨own, hpath, -⟩ := hplaced
    obtain rfl := Except.ok.inj ((patch_container hpath htunable).symm.trans h)
    refine (reach?_elementPatch_member (by decide)).trans ?_
    rw [if_neg fun h => absurd h.2 (by decide)]
  | envVar f =>
    obtain ⟨own, hpath, -, -⟩ := hplaced
    obtain rfl := Except.ok.inj ((patch_envVar hpath htunable).symm.trans h)
    refine (reach?_elementPatch_member (by decide)).trans ?_
    rw [reach?_element (name?_element f.name _)]
    split
    · next hname =>
      obtain ⟨rfl, -⟩ := hname
      rw [if_neg (Ne.symm (hentry f rfl hpath))]
    · rfl

end TunableField

end WorkloadTuning
