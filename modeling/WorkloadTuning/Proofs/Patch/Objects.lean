import WorkloadTuning.Patch.Application
import WorkloadTuning.Proofs.Json.Composition
import WorkloadTuning.Proofs.Resource.Identity

/-! Patches in the form of whole objects. The object form tells the identity of its target first and
the metadata with it, while the patch has its members in any order. Merging a member that the target
has already does not move it, so it may as well be merged before all others. -/

namespace WorkloadTuning

/-! ### Members that keep their place -/

namespace Members

variable {ms : Members} {key other : String} {value old : Json}

theorem keys_append (first second : Members) : keys (first ++ second) = first.keys ++ second.keys :=
  List.map_append

/-- Erasing looks at the keys only. -/
theorem erase_map {f : String × Json → String × Json} (hf : ∀ e, (f e).1 = e.1) (key : String)
    (ms : Members) : erase key (ms.map f) = (erase key ms).map f := by
  induction ms with
  | nil => rfl
  | cons m rest ih =>
    rw [List.map_cons, erase_cons, erase_cons, hf]
    split
    · rw [List.getLast?_map]
      cases rest.getLast? with
      | none => rfl
      | some last =>
        rw [Option.map_some, ← List.map_dropLast]
        rfl
    · rw [ih, List.map_cons]

theorem set_eq_map (hkeys : ms.keys.Nodup) (hold : ms.get? key = some old) (value : Json) :
    set key value ms = ms.map fun e => if e.1 = key then (e.1, value) else e := by
  induction ms with
  | nil => cases hold
  | cons m rest ih =>
    obtain ⟨k, v⟩ := m
    obtain ⟨hnew, hrest⟩ := List.nodup_cons.mp hkeys
    rw [get?_cons] at hold
    by_cases hkey : k = key
    · subst hkey
      have hothers : rest.map (fun e => if e.1 = k then (e.1, value) else e) = rest := by
        refine (List.map_congr_left fun e he => if_neg fun heq => hnew ?_).trans (List.map_id rest)
        exact List.mem_map.mpr ⟨e, he, heq⟩
      simp [set_cons, hothers]
    · rw [if_neg (Ne.symm hkey)] at hold
      simp [set_cons, hkey, ih hrest hold]

theorem erase_set_comm (hkeys : ms.keys.Nodup) (hold : ms.get? key = some old) (hne : other ≠ key)
    (value : Json) : erase other (set key value ms) = set key value (erase other ms) := by
  have hkept : (erase other ms).get? key = some old := by
    rw [get?_erase hkeys, if_neg (Ne.symm hne), hold]
  rw [set_eq_map hkeys hold, set_eq_map (keys_erase_nodup hkeys other) hkept, erase_map]
  intro e
  split <;> rfl

end Members

namespace Json

variable {ms fields before after : Members} {key other : String} {value old : Json}

theorem mergeMembers_step (ms rest : Members) (key : String) (value : Json) :
    mergeMembers ms ((key, value) :: rest) = mergeMembers (patchMember ms key value) rest :=
  rfl

theorem mergeMembers_append (ms first second : Members) :
    mergeMembers ms (first ++ second) = mergeMembers (mergeMembers ms first) second := by
  induction first generalizing ms with
  | nil => rfl
  | cons e rest ih => exact ih _

/-- A member that is there may be set before or after another is merged. -/
theorem patchMember_set_comm (hkeys : ms.keys.Nodup) (hold : ms.get? key = some old)
    (hne : other ≠ key) (new : Json) :
    patchMember (ms.set key new) other value = (patchMember ms other value).set key new := by
  unfold patchMember
  split
  · exact Members.erase_set_comm hkeys hold hne new
  · rw [Members.get?_set_ne _ _ hne]
    have hmem : key ∈ ms.keys := by
      by_contra hnone
      rw [Members.get?_eq_none_iff.mpr hnone] at hold
      cases hold
    exact (Members.set_set_comm new _ hmem hne).symm

theorem mergeMembers_set_comm (hkeys : ms.keys.Nodup) (hold : ms.get? key = some old)
    (hfields : key ∉ fields.keys) (new : Json) :
    mergeMembers (ms.set key new) fields = (mergeMembers ms fields).set key new := by
  induction fields generalizing ms with
  | nil => rfl
  | cons e rest ih =>
    obtain ⟨hne, hrest⟩ := not_or.mp fun h => hfields (List.mem_cons.mpr h)
    rw [mergeMembers_step, patchMember_set_comm hkeys hold (Ne.symm hne)]
    refine ih (patchMember_keys_nodup hkeys e.1 e.2) ?_ hrest
    rw [get?_patchMember hkeys, if_neg hne, hold]

/-- A member that the target has may be merged before all others as well as in its place. -/
theorem mergeMembers_first (hkeys : ms.keys.Nodup)
    (hfields : (Members.keys (before ++ (key, value) :: after)).Nodup)
    (hold : ms.get? key = some old) (hvalue : value ≠ null) :
    mergeMembers ms (before ++ (key, value) :: after) =
      mergeMembers (ms.set key (old.merge value)) (before ++ after) := by
  have hnew : key ∉ Members.keys before := by
    rw [Members.keys_append] at hfields
    exact fun hmem => (List.nodup_append.mp hfields).2.2 key hmem key List.mem_cons_self rfl
  have hstays : (mergeMembers ms before).get? key = some old := by
    rw [get?_mergeMembers_distinct hkeys, Members.get?_eq_none_iff.mpr hnew, hold]
    · rfl
    · rw [Members.keys_append] at hfields
      exact (List.nodup_append.mp hfields).1
  rw [mergeMembers_append, mergeMembers_cons _ _ _ hvalue, Members.overlay, hstays,
    mergeMembers_append, mergeMembers_set_comm hkeys hold hnew]
  rfl

end Json

/-! ### Object forms -/

namespace PatchOperation

/-- The data leaves it to the reference who is patched. -/
structure LeavesIdentity (data : Members) : Prop where
  apiVersion : "apiVersion" ∉ data.keys
  kind : "kind" ∉ data.keys
  metadata : ∀ {value}, data.get? "metadata" = some value →
    ∃ given, value = .object given ∧ "name" ∉ Members.keys given ∧ "namespace" ∉ Members.keys given

variable {op : PatchOperation} {target : ObjectReference} {data ms : Members} {tree : Json}

/-- The metadata that the data sets. -/
def givenMetadata (data : Members) : Members :=
  ((data.get? "metadata").bind Json.asObject?).getD []

theorem LeavesIdentity.givenMetadata (h : LeavesIdentity data) :
    "name" ∉ (givenMetadata data).keys ∧ "namespace" ∉ (givenMetadata data).keys := by
  unfold PatchOperation.givenMetadata
  cases hvalue : data.get? "metadata" with
  | none => simp [Members.keys]
  | some value =>
    obtain ⟨given, rfl, hname, hnamespace⟩ := h.metadata hvalue
    exact ⟨hname, hnamespace⟩

/-- What the target has already need not be merged into it. -/
theorem mergeMembers_set_fresh {fields : Members} {key text : String} (hms : ms.keys.Nodup)
    (hfields : fields.keys.Nodup) (hnew : key ∉ fields.keys)
    (hold : ms.get? key = some (.string text)) :
    Json.mergeMembers ms (fields.set key (.string text)) = Json.mergeMembers ms fields := by
  have hstays : Members.get? (Json.mergeMembers ms fields) key = some (.string text) := by
    rw [Json.get?_mergeMembers_distinct hms hfields, Members.get?_eq_none_iff.mpr hnew, hold]
    rfl
  rw [Members.set_fresh _ hnew, Json.mergeMembers_append]
  refine Json.patchMember_eq_self ?_
  rw [hstays]
  rfl

/-- The identity in the metadata of the object form is that of the target, so it may be left out. -/
theorem mergeMembers_objectMetadata (h : LeavesIdentity data) (hms : ms.keys.Nodup)
    (hgiven : (givenMetadata data).keys.Nodup) (hname : ms.get? "name" = some (.string target.name))
    (hnamespace : target.namespaceName ≠ "" →
      ms.get? "namespace" = some (.string target.namespaceName)) :
    Json.mergeMembers ms (objectMetadata target data) =
      Json.mergeMembers ms (givenMetadata data) := by
  obtain ⟨hnoName, hnoNamespace⟩ := h.givenMetadata
  have hnamed : Json.mergeMembers ms ((givenMetadata data).set "name" (.string target.name)) =
      Json.mergeMembers ms (givenMetadata data) :=
    mergeMembers_set_fresh hms hgiven hnoName hname
  unfold objectMetadata
  split
  · exact hnamed
  · next hsome =>
    refine (mergeMembers_set_fresh hms (Members.keys_set_nodup hgiven _ _) ?_
      (hnamespace (by simpa using hsome))).trans hnamed
    rw [Members.keys_set, if_neg hnoName]
    simpa using hnoNamespace

/-- Whatever the data says first or last of the metadata, the object form says it first. -/
theorem mergeMembers_metadata_first {members : Members} (h : LeavesIdentity data)
    (hms : ms.keys.Nodup) (hdata : data.keys.Nodup)
    (hold : ms.get? "metadata" = some (.object members)) :
    Json.mergeMembers ms data = Json.mergeMembers
      (ms.set "metadata" (.object (Json.mergeMembers members (givenMetadata data))))
      (data.filter fun (key, _) => !isIdentityKey key) := by
  have hother {e : String × Json} (he : e ∈ data) (hne : e.1 ≠ "metadata") :
      (!isIdentityKey e.1) = true := by
    have hversion : e.1 ≠ "apiVersion" := fun heq => h.apiVersion (List.mem_map.mpr ⟨e, he, heq⟩)
    have hkind : e.1 ≠ "kind" := fun heq => h.kind (List.mem_map.mpr ⟨e, he, heq⟩)
    simp [isIdentityKey, hversion, hkind, hne]
  cases hvalue : data.get? "metadata" with
  | none =>
    have hgiven : PatchOperation.givenMetadata data = [] := by rw [givenMetadata, hvalue]; rfl
    have hall : (data.filter fun (key, _) => !isIdentityKey key) = data :=
      List.filter_eq_self.mpr fun e he => hother he fun heq =>
        Members.get?_eq_none_iff.mp hvalue (List.mem_map.mpr ⟨e, he, heq⟩)
    rw [hall, hgiven, Json.mergeMembers, Members.set_of_get? hold]
  | some value =>
    obtain ⟨given, rfl, -, -⟩ := h.metadata hvalue
    have hgiven : PatchOperation.givenMetadata data = given := by rw [givenMetadata, hvalue]; rfl
    obtain ⟨before, after, rfl⟩ := List.append_of_mem (Members.mem_of_get? hvalue)
    have hnew : "metadata" ∉ Members.keys (before ++ after) := by
      rw [Members.keys_append] at hdata ⊢
      exact (List.nodup_cons.mp (List.nodup_middle.mp hdata)).1
    have hothers : ((before ++ after).filter fun (key, _) => !isIdentityKey key) =
        before ++ after := by
      refine List.filter_eq_self.mpr fun e he => hother ?_ fun heq =>
        hnew (List.mem_map.mpr ⟨e, he, heq⟩)
      exact ((List.sublist_cons_self _ after).append_left before).subset he
    rw [List.filter_append, List.filter_cons_of_neg (by simp [isIdentityKey]),
      ← List.filter_append, hothers, hgiven, Json.mergeMembers_first hms hdata hold (by simp)]
    rfl

/-- What the object form tells of its metadata is the identity of the target. -/
theorem textAt_objectMetadata (target : ObjectReference) (h : LeavesIdentity data) :
    Resource.textAt (.object (objectMetadata target data)) ["name"] = target.name ∧
      Resource.textAt (.object (objectMetadata target data)) ["namespace"] =
        target.namespaceName := by
  obtain ⟨-, hnamespace⟩ := h.givenMetadata
  have hnone : Members.get? ((givenMetadata data).set "name" (.string target.name)) "namespace" =
      none := by
    rw [Members.get?_set_ne _ _ (by decide)]
    exact Members.get?_eq_none_iff.mpr hnamespace
  have hnamed : Members.get? ((givenMetadata data).set "name" (.string target.name)) "name" =
      some (.string target.name) := Members.get?_set_self _ _ _
  unfold objectMetadata
  split
  · next hempty =>
    exact ⟨Resource.textAt_member hnamed,
      (Resource.textAt_no_member hnone).trans (String.isEmpty_iff.mp hempty).symm⟩
  · have hkept := (Members.get?_set_ne (.string target.namespaceName)
      ((givenMetadata data).set "name" (.string target.name))
      (show "name" ≠ "namespace" by decide)).trans hnamed
    exact ⟨Resource.textAt_member hkept, Resource.textAt_member (Members.get?_set_self _ _ _)⟩

/-- Merging what comes first in the object form changes the metadata only, and that as the data
says. -/
theorem mergeMembers_identity {inner : Members} (h : LeavesIdentity data)
    (hinner : inner.keys.Nodup) (hgiven : (givenMetadata data).keys.Nodup)
    (htells : Resource.Tells target ms inner) :
    Json.mergeMembers ms [("apiVersion", .string target.apiVersion), ("kind", .string target.kind),
        ("metadata", .object (objectMetadata target data))] =
      ms.set "metadata" (.object (Json.mergeMembers inner (givenMetadata data))) := by
  have hversion : Json.patchMember ms "apiVersion" (.string target.apiVersion) = ms :=
    Json.patchMember_eq_self (by rw [htells.apiVersion]; rfl)
  have hkind : Json.patchMember ms "kind" (.string target.kind) = ms :=
    Json.patchMember_eq_self (by rw [htells.kind]; rfl)
  have hmetadata : Json.patchMember ms "metadata" (.object (objectMetadata target data)) =
      ms.set "metadata" (.object (Json.mergeMembers inner (objectMetadata target data))) := by
    rw [Json.patchMember, htells.metadata]
    rfl
  rw [Json.mergeMembers_step, hversion, Json.mergeMembers_step, hkind, Json.mergeMembers_step,
    hmetadata, mergeMembers_objectMetadata h hinner hgiven htells.name htells.namespaceName]
  rfl

/-- A patch that leaves the identity to its reference can be merged in the form of a whole object
into what the reference points to, and this object has the identity of the reference. -/
theorem toObject_merges (hkind : op.kind = .strategic) (hdata : op.data = .object data)
    (h : LeavesIdentity data) (hkeys : op.data.HasDistinctKeys) (htree : tree.HasDistinctKeys)
    (hidentity : Resource.identityOf tree = op.target) (hversion : op.target.apiVersion ≠ "")
    (hobject : op.target.kind ≠ "") (hname : op.target.name ≠ "") :
    ∃ object r, op.toObject = .ok object ∧ op.applyTo tree = .ok (tree.merge object) ∧
      Resource.ofTree object = .ok r ∧ r.target = op.target := by
  obtain ⟨ms, inner, rfl, htells⟩ := Resource.exists_tells hidentity hversion hobject hname
  have hms : Members.keys ms |>.Nodup := htree.1
  have hinner : Members.keys inner |>.Nodup := (htree.get? htells.metadata).1
  rw [hdata] at hkeys
  have hgiven : (givenMetadata data).keys.Nodup := by
    unfold givenMetadata
    cases hvalue : data.get? "metadata" with
    | none => exact List.nodup_nil
    | some value =>
      obtain ⟨given, rfl, -, -⟩ := h.metadata hvalue
      exact (hkeys.get? hvalue).1
  have hform : op.toObject = .ok (.object
      ([("apiVersion", .string op.target.apiVersion), ("kind", .string op.target.kind),
        ("metadata", .object (objectMetadata op.target data))] ++
        data.filter fun (key, _) => !isIdentityKey key)) := by
    unfold toObject
    rw [hdata]
  obtain ⟨htextName, htextNamespace⟩ := textAt_objectMetadata op.target h
  refine ⟨_, ⟨op.target, _⟩, hform, ?_, Resource.ofTree_of_identityOf ?_ hobject hname, rfl⟩
  · rw [applyTo, hkind, hdata]
    show Except.ok (Json.object (Json.mergeMembers ms data)) =
      .ok (.object (Json.mergeMembers ms (_ ++ _)))
    rw [Json.mergeMembers_append, mergeMembers_identity h hinner hgiven htells,
      mergeMembers_metadata_first h hms hkeys.1 htells.metadata]
  · have hinside (key : String) : Resource.textAt (.object
        (("apiVersion", .string op.target.apiVersion) :: ("kind", .string op.target.kind) ::
          ("metadata", .object (objectMetadata op.target data)) ::
          data.filter fun (key, _) => !isIdentityKey key)) ["metadata", key] =
        Resource.textAt (.object (objectMetadata op.target data)) [key] :=
      Resource.textAt_member rfl
    rw [Resource.identityOf, List.cons_append, List.cons_append, List.singleton_append,
      hinside "name", hinside "namespace", htextName, htextNamespace]
    rfl

/-- Metadata and replicas, in an order of their own. -/
def scaleData : Members := [
  ("status", .null),
  ("spec", .object [("replicas", .ofInt 3)]),
  ("metadata", .object [("labels", .object [("tier", .string "front"), ("old", .null)])])]

def scalePatch : PatchOperation :=
  { target := { apiVersion := "apps/v1", kind := "Deployment", namespaceName := "prod",
                name := "web" }
    data := .object scaleData }

def webDeployment : Json := .object [
  ("status", .object []),
  ("kind", .string "Deployment"),
  ("metadata", .object [
    ("labels", .object [("old", .string "yes")]),
    ("name", .string "web"),
    ("namespace", .string "prod")]),
  ("apiVersion", .string "apps/v1")]

theorem scalePatch_merges :
    ∃ object r, scalePatch.toObject = .ok object ∧
      scalePatch.applyTo webDeployment = .ok (webDeployment.merge object) ∧
      Resource.ofTree object = .ok r ∧ r.target = scalePatch.target := by
  have h : LeavesIdentity scaleData :=
    ⟨by decide, by decide, fun hvalue => ⟨_, (Option.some.inj hvalue).symm, by decide, by decide⟩⟩
  exact toObject_merges rfl rfl h (by decide) (by decide) (by decide) (by decide) (by decide)
    (by decide)

end PatchOperation

end WorkloadTuning
