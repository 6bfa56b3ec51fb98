import WorkloadTuning.Patch.Application
import WorkloadTuning.Proofs.Outcome

/-! Applying structural patches to sets of resources. A reference is looked up by identity, so what
is changed is the first resource that it points to, and the references of the set stay as they
are. -/

namespace WorkloadTuning

/-! ### References -/

namespace ObjectReference

theorem matchesIdentity_self (r : ObjectReference) : r.matchesIdentity r = true := by
  simp [matchesIdentity]

/-- A reference that leaves nothing open points to itself only. -/
theorem eq_of_matchesIdentity {r q : ObjectReference} (hkind : r.kind ≠ "")
    (hversion : r.apiVersion ≠ "") (hnamespace : r.namespaceName ≠ "")
    (h : r.matchesIdentity q = true) : q = r := by
  simp only [matchesIdentity, Bool.and_eq_true, Bool.or_eq_true, String.isEmpty_iff, beq_iff_eq] at h
  obtain ⟨⟨⟨hname, hk⟩, hv⟩, hn⟩ := h
  have hk := hk.resolve_left hkind
  have hv := hv.resolve_left hversion
  have hn := hn.resolve_left hnamespace
  cases r
  cases q
  simp_all

end ObjectReference

/-! ### One operation -/

namespace ResourceSet

/-- The references of the resources, in order. -/
def targets (set : ResourceSet) : List ObjectReference :=
  set.resources.map Resource.target

/-- The reference of the first resource that is pointed to. -/
def lookup? (set : ResourceSet) (target : ObjectReference) : Option ObjectReference :=
  set.targets.find? target.matchesIdentity

theorem lookup?_eq_map_find? (set : ResourceSet) (target : ObjectReference) :
    set.lookup? target = (set.find? target).map Resource.target := by
  rw [lookup?, find?, targets, List.find?_map]
  rfl

/-- The resources pointed to are there, so the lookup finds one of them. -/
theorem exists_find? {set : ResourceSet} {r : Resource} {target : ObjectReference}
    (hr : r ∈ set.resources) (h : target.matchesIdentity r.target = true) :
    ∃ q, set.find? target = some q := by
  rw [← Option.isSome_iff_exists, find?, List.find?_isSome]
  exact ⟨r, hr, h⟩

theorem modify_go_append {target : ObjectReference} {f : Json → Outcome Json}
    {before after : List Resource} {r : Resource} {tree : Json}
    (hbefore : ∀ q ∈ before, target.matchesIdentity q.target = false)
    (hr : target.matchesIdentity r.target = true) (hf : f r.tree = .ok tree) :
    modify.go target f (before ++ r :: after) = .ok (before ++ { r with tree } :: after) := by
  induction before with
  | nil =>
    simp only [List.nil_append, modify.go, hr, if_true, hf]
    rfl
  | cons q rest ih =>
    have hq := hbefore q List.mem_cons_self
    simp only [List.cons_append, modify.go, hq, Bool.false_eq_true, if_false]
    rw [ih fun x hx => hbefore x (List.mem_cons_of_mem _ hx)]
    rfl

/-- A structural patch changes the resource that is found, and that one only. -/
theorem applyPatch_strategic {set : ResourceSet} {op : PatchOperation} {r : Resource}
    (hkind : op.kind = .strategic) (hr : set.find? op.target = some r) :
    ∃ before after, set.resources = before ++ r :: after ∧
      (∀ q ∈ before, op.target.matchesIdentity q.target = false) ∧
      set.applyPatch op =
        .ok ⟨before ++ { r with tree := r.tree.merge op.data } :: after⟩ := by
  obtain ⟨hmatch, before, after, heq, hbefore⟩ := List.find?_eq_some_iff_append.mp hr
  have hnone : ∀ q ∈ before, op.target.matchesIdentity q.target = false := by
    intro q hq
    simpa using hbefore q hq
  have happly : op.applyTo r.tree = .ok (r.tree.merge op.data) := by
    simp only [PatchOperation.applyTo, hkind]
  refine ⟨before, after, heq, hnone, ?_⟩
  rw [applyPatch, modify, heq, modify_go_append hnone hmatch happly]
  rfl

theorem applyPatch_keeps {set next : ResourceSet} {op : PatchOperation} {r : Resource}
    (hkind : op.kind = .strategic) (hr : set.find? op.target = some r)
    (h : set.applyPatch op = .ok next) : next.targets = set.targets ∧
      ∀ q ∈ set.resources, set.lookup? op.target ≠ some q.target → q ∈ next.resources := by
  obtain ⟨before, after, heq, -, happly⟩ := applyPatch_strategic hkind hr
  obtain rfl := Except.ok.inj (happly.symm.trans h)
  refine ⟨by simp [targets, heq], fun q hq hlookup => ?_⟩
  rw [heq, List.mem_append, List.mem_cons] at hq
  rw [List.mem_append, List.mem_cons]
  rcases hq with hq | rfl | hq
  · exact .inl hq
  · rw [lookup?_eq_map_find?, hr] at hlookup
    exact absurd rfl hlookup
  · exact .inr (.inr hq)

/-! ### A run of operations -/

/-- A run of structural patches whose targets are in the set succeeds, keeps the references, and
leaves every resource alone that no operation is looked up as. -/
theorem applyPatches_keeps {set : ResourceSet} {ops : List PatchOperation}
    (hkind : ∀ op ∈ ops, op.kind = .strategic)
    (hfound : ∀ op ∈ ops, ∃ found, set.lookup? op.target = some found) :
    ∃ next, set.applyPatches ops = (next, none) ∧ next.targets = set.targets ∧
      ∀ q ∈ set.resources, (∀ op ∈ ops, set.lookup? op.target ≠ some q.target) →
        q ∈ next.resources := by
  induction ops generalizing set with
  | nil => exact ⟨set, rfl, rfl, fun q hq _ => hq⟩
  | cons op rest ih =>
    have hop := hkind op List.mem_cons_self
    obtain ⟨found, hlookup⟩ := hfound op List.mem_cons_self
    rw [lookup?_eq_map_find?] at hlookup
    obtain ⟨r, hr, -⟩ := Option.map_eq_some_iff.mp hlookup
    obtain ⟨before, after, -, -, happly⟩ := applyPatch_strategic hop hr
    obtain ⟨htargets, hkeeps⟩ := applyPatch_keeps hop hr happly
    -- References are all that a lookup reads, so later lookups are those of the set at the start.
    have hsame : ∀ target, ResourceSet.lookup? _ target = set.lookup? target :=
      fun target => congrArg (List.find? target.matchesIdentity) htargets
    obtain ⟨next, hrest, hnext, hlater⟩ := ih
      (fun op hop => hkind op (List.mem_cons_of_mem _ hop))
      (fun op hop => by
        rw [hsame]
        exact hfound op (List.mem_cons_of_mem _ hop))
    refine ⟨next, ?_, hnext.trans htargets, fun q hq hnone => ?_⟩
    · rw [applyPatches, happly]
      exact hrest
    · apply hlater q (hkeeps q hq (hnone op List.mem_cons_self))
      intro op hop
      rw [hsame]
      exact hnone op (List.mem_cons_of_mem _ hop)

/-! ### Sets in which every reference finds its resource -/

/-- The reference of each resource finds that very resource. -/
def FindsEach (set : ResourceSet) : Prop :=
  ∀ i r, set.resources[i]? = some r →
    set.resources.findIdx? (fun q => r.target.matchesIdentity q.target) = some i

theorem FindsEach.pairwise {set : ResourceSet} (h : set.FindsEach) :
    set.targets.Pairwise fun q r => r.matchesIdentity q = false := by
  rw [targets, List.pairwise_map, List.pairwise_iff_getElem]
  intro i j hi hj hlt
  obtain ⟨_, -, hbefore⟩ := List.findIdx?_eq_some_iff_getElem.mp
    (h j set.resources[j] (List.getElem?_eq_getElem hj))
  simpa using hbefore i hlt

theorem FindsEach.targets_nodup {set : ResourceSet} (h : set.FindsEach) : set.targets.Nodup := by
  refine h.pairwise.imp fun hne heq => ?_
  rw [heq, ObjectReference.matchesIdentity_self] at hne
  cases hne

end ResourceSet

/-- The resource with the data merged into its tree. -/
def Resource.merge (r : Resource) (data : Json) : Resource :=
  { r with tree := r.tree.merge data }

/-- The resource after the operation of its own reference. -/
def Resource.patchedBy (ops : List PatchOperation) (r : Resource) : Resource :=
  match ops.find? fun op => op.target = r.target with
  | none => r
  | some op => r.merge op.data

namespace ResourceSet

/-- An operation for a reference changes the resource that has it. -/
theorem applyPatch_own {set : ResourceSet} {op : PatchOperation}
    (hown : set.targets.Pairwise fun q r => r.matchesIdentity q = false)
    (hkind : op.kind = .strategic) (hmem : op.target ∈ set.targets) :
    set.applyPatch op = .ok ⟨set.resources.map fun r =>
      if op.target = r.target then r.merge op.data else r⟩ := by
  obtain ⟨r, hr, htarget⟩ := List.mem_map.mp hmem
  obtain ⟨before, after, heq⟩ := List.append_of_mem hr
  rw [targets, heq, List.map_append, List.map_cons, List.pairwise_append] at hown
  obtain ⟨-, hafter, hbefore⟩ := hown
  have hearlier : ∀ q ∈ before, op.target.matchesIdentity q.target = false := by
    intro q hq
    rw [← htarget]
    exact hbefore q.target (List.mem_map_of_mem hq) r.target List.mem_cons_self
  have hself := ObjectReference.matchesIdentity_self
  have hbeforeNe : ∀ q ∈ before, op.target ≠ q.target := by
    intro q hq hsame
    have hnot := hearlier q hq
    rw [hsame, hself] at hnot
    cases hnot
  have hafterNe : ∀ q ∈ after, op.target ≠ q.target := by
    intro q hq hsame
    have hnot := (List.pairwise_cons.mp hafter).1 q.target (List.mem_map_of_mem hq)
    rw [htarget, hsame, hself] at hnot
    cases hnot
  have happly : op.applyTo r.tree = .ok (r.tree.merge op.data) := by
    simp only [PatchOperation.applyTo, hkind]
  have hmatch : op.target.matchesIdentity r.target = true := by
    rw [htarget, hself]
  have hkeptBefore : before.map (fun q => if op.target = q.target then q.merge op.data else q) =
      before := by
    refine (List.map_congr_left fun q hq => if_neg (hbeforeNe q hq)).trans (List.map_id _)
  have hkeptAfter : after.map (fun q => if op.target = q.target then q.merge op.data else q) =
      after := by
    refine (List.map_congr_left fun q hq => if_neg (hafterNe q hq)).trans (List.map_id _)
  rw [applyPatch, modify, heq, modify_go_append hearlier hmatch happly, List.map_append,
    List.map_cons, hkeptBefore, hkeptAfter, if_pos htarget.symm]
  rfl

/-- A run of operations for different references changes each resource by its own operation. -/
theorem applyPatches_own {set : ResourceSet} {ops : List PatchOperation}
    (hown : set.targets.Pairwise fun q r => r.matchesIdentity q = false)
    (hkind : ∀ op ∈ ops, op.kind = .strategic) (hmem : ∀ op ∈ ops, op.target ∈ set.targets)
    (hnodup : (ops.map PatchOperation.target).Nodup) :
    set.applyPatches ops = (⟨set.resources.map (Resource.patchedBy ops)⟩, none) := by
  induction ops generalizing set with
  | nil =>
    have hid : set.resources.map (Resource.patchedBy []) = set.resources := List.map_id _
    rw [applyPatches, hid]
  | cons op rest ih =>
    obtain ⟨hfresh, hrest⟩ := List.nodup_cons.mp hnodup
    have hop := applyPatch_own hown (hkind op List.mem_cons_self) (hmem op List.mem_cons_self)
    have htargets : ResourceSet.targets ⟨set.resources.map fun r =>
        if op.target = r.target then r.merge op.data else r⟩ = set.targets := by
      rw [targets, targets, List.map_map]
      apply List.map_congr_left
      intro r _
      rw [Function.comp_apply]
      split <;> rfl
    rw [applyPatches, hop]
    show applyPatches _ rest = _
    rw [ih (htargets ▸ hown) (fun op hop => hkind op (List.mem_cons_of_mem _ hop))
      (fun op hop => htargets ▸ hmem op (List.mem_cons_of_mem _ hop)) hrest]
    congr 2
    rw [List.map_map]
    apply List.map_congr_left
    intro r _
    rw [Function.comp_apply]
    by_cases hsame : op.target = r.target
    · -- No later operation is for this reference.
      have hnone : (rest.find? fun op => op.target = r.target) = none := by
        rw [List.find?_eq_none]
        intro later hlater
        rw [decide_eq_true_eq]
        exact fun heq => hfresh (hsame.trans heq.symm ▸ List.mem_map_of_mem hlater)
      have hmerged : (r.merge op.data).target = r.target := rfl
      rw [if_pos hsame, Resource.patchedBy, Resource.patchedBy, hmerged, hnone,
        List.find?_cons_of_pos (by simpa using hsame)]
    · rw [if_neg hsame, Resource.patchedBy, Resource.patchedBy,
        List.find?_cons_of_neg (by simpa using hsame)]

end ResourceSet

end WorkloadTuning
