import WorkloadTuning.Proofs.Json.Fields
import WorkloadTuning.Resource.Basic

/-! What documents say about their identity. Its parts are texts that are found by following member
names, and a part is empty where no text is found. -/

namespace WorkloadTuning.Resource

variable {tree value : Json} {target : ObjectReference} {key : String} {keys : List String}

/-- With a kind and a name, a tree is the resource that it tells to be. -/
theorem ofTree_of_identityOf (h : identityOf tree = target) (hkind : target.kind ≠ "")
    (hname : target.name ≠ "") : ofTree tree = .ok ⟨target, tree⟩ := by
  subst h
  simp [ofTree, hkind, hname]

theorem textAt_cons (h : tree.get? key = some value) :
    textAt tree (key :: keys) = textAt value keys := by
  rw [textAt, Json.follow?, h]
  rfl

theorem textAt_of_get?_none (h : tree.get? key = none) : textAt tree (key :: keys) = "" := by
  rw [textAt, Json.follow?, h]
  rfl

/-- Where a text is found behind a key, the key is there. -/
theorem exists_get?_of_textAt (h : textAt tree (key :: keys) ≠ "") :
    ∃ value, tree.get? key = some value ∧ textAt value keys = textAt tree (key :: keys) := by
  cases hvalue : tree.get? key with
  | none => exact absurd (textAt_of_get?_none hvalue) h
  | some value => exact ⟨value, rfl, (textAt_cons hvalue).symm⟩

theorem eq_string_of_textAt (h : textAt value [] ≠ "") : value = .string (textAt value []) := by
  cases value with
  | string s => rfl
  | _ => exact absurd rfl h

theorem get?_of_textAt (h : textAt tree [key] ≠ "") :
    tree.get? key = some (.string (textAt tree [key])) := by
  obtain ⟨value, hvalue, htext⟩ := exists_get?_of_textAt h
  rw [hvalue, ← htext, ← eq_string_of_textAt (htext ▸ h)]

/-- The members of a tree, and those of its metadata, tell the identity. -/
structure Tells (target : ObjectReference) (members inner : Members) : Prop where
  apiVersion : members.get? "apiVersion" = some (.string target.apiVersion)
  kind : members.get? "kind" = some (.string target.kind)
  metadata : members.get? "metadata" = some (.object inner)
  name : inner.get? "name" = some (.string target.name)
  namespaceName : target.namespaceName ≠ "" →
    inner.get? "namespace" = some (.string target.namespaceName)

theorem exists_tells (h : identityOf tree = target) (hversion : target.apiVersion ≠ "")
    (hkind : target.kind ≠ "") (hname : target.name ≠ "") :
    ∃ members inner, tree = .object members ∧ Tells target members inner := by
  subst h
  have hobject {json value : Json} {key : String} (h : json.get? key = some value) :
      ∃ members, json = .object members := by
    cases json with
    | object members => exact ⟨members, rfl⟩
    | _ => cases h
  obtain ⟨value, hvalue, htext⟩ := exists_get?_of_textAt hname
  have hnamed : value.get? "name" = some (.string (identityOf tree).name) :=
    (get?_of_textAt (fun hempty => hname (htext.symm.trans hempty))).trans (by rw [htext]; rfl)
  have hplaced (hne : (identityOf tree).namespaceName ≠ "") :
      value.get? "namespace" = some (.string (identityOf tree).namespaceName) := by
    have htext : textAt value ["namespace"] = (identityOf tree).namespaceName :=
      (textAt_cons hvalue).symm
    rw [← htext] at hne ⊢
    exact get?_of_textAt hne
  obtain ⟨members, rfl⟩ := hobject hvalue
  obtain ⟨inner, rfl⟩ := hobject hnamed
  exact ⟨members, inner, rfl, get?_of_textAt hversion, get?_of_textAt hkind, hvalue, hnamed,
    hplaced⟩

theorem textAt_member {members : Members} (h : members.get? key = some value) :
    textAt (.object members) (key :: keys) = textAt value keys :=
  textAt_cons h

theorem textAt_no_member {members : Members} (h : members.get? key = none) :
    textAt (.object members) (key :: keys) = "" :=
  textAt_of_get?_none h

/-- The text of a field is found, also where an empty one is left out. -/
theorem textAt_textMember (key text : String) {rest : Members} (hrest : rest.get? key = none) :
    textAt (.object (Record.textMember key text ++ rest)) [key] = text := by
  by_cases htext : text = ""
  · subst htext
    exact textAt_no_member hrest
  · exact textAt_member (Record.get?_textMember key htext rest)

theorem textAt_memberUnless {α : Type} [Record α] {other : String} (hne : other ≠ key)
    (omitted : Bool) (a : α) (rest : Members) :
    textAt (.object (Record.memberUnless omitted key a ++ rest)) (other :: keys) =
      textAt (.object rest) (other :: keys) := by
  have hget : (Json.object (Record.memberUnless omitted key a ++ rest)).get? other =
      (Json.object rest).get? other := Record.get?_memberUnless hne omitted a rest
  rw [textAt, textAt, Json.follow?, Json.follow?, hget]

end WorkloadTuning.Resource
