import WorkloadTuning.Proofs.Template.Overlay

/-! Templates that restate a tree: filled in, they have at every place that they reach what the tree
has there already. Templates that do can be merged with each other, and merging one into the tree
changes nothing. -/

namespace WorkloadTuning

namespace Json

/-- The tree can be entered by the step, and merging by it keeps what the patch does not reach. -/
def Opens (tree : Json) : Step → Prop
  | .member _ => ∃ ms, tree = object ms
  | .named _ => ∃ items, tree = array items ∧ isNamedList items = true

/-- A tree that is entered by two steps takes patches of one shape. -/
theorem Suits.of_opens {tree patch : Json} {step other : Step} (h : patch.Suits step)
    (hstep : tree.Opens step) (hother : tree.Opens other) : patch.Suits other := by
  cases step with
  | member key =>
    obtain ⟨ms, rfl⟩ := hstep
    cases other with
    | member key => exact h
    | named name =>
      obtain ⟨_, heq, -⟩ := hother
      cases heq
  | named name =>
    obtain ⟨items, rfl, -⟩ := hstep
    cases other with
    | member key =>
      obtain ⟨_, heq⟩ := hother
      cases heq
    | named name => exact h

/-- A step that finds something is of the kind that the shape is for. -/
theorem Suits.of_enter? {tree patch value : Json} {step other : Step} (h : patch.Suits step)
    (htree : tree.Opens step) (hvalue : patch.enter? other = some value) : tree.Opens other := by
  cases step with
  | member key =>
    obtain ⟨fields, rfl, -⟩ := h
    cases other with
    | member key => exact htree
    | named name => cases hvalue
  | named name =>
    obtain ⟨items, rfl, -⟩ := h
    cases other with
    | member key => cases hvalue
    | named name => exact htree

end Json

/-! ### Merging what is there already -/

namespace Json

theorem mergeMembers_of_get? {ms fields : Members} (h : ∀ e ∈ fields, e.2 ≠ null ∧
    ∃ child, ms.get? e.1 = some child ∧ child.merge e.2 = child) : mergeMembers ms fields = ms := by
  induction fields with
  | nil => rfl
  | cons e rest ih =>
    obtain ⟨key, value⟩ := e
    obtain ⟨hne, child, hchild, hsame⟩ := h (key, value) List.mem_cons_self
    have hnull : value.isNull = false := by
      cases value <;> first | rfl | exact absurd rfl hne
    rw [mergeMembers, hnull]
    simp only [Bool.false_eq_true, if_false, hchild, Option.getD_some, hsame,
      Members.set_of_get? hchild]
    exact ih fun e he => h e (List.mem_cons_of_mem _ he)

/-- What is found in merged documents comes from the one side or is merged from both. -/
theorem enter?_merge_cases {target patch merged : Json} {step : Step} (h : patch.Suits step)
    (ht : target.Admits step) (hmerged : (target.merge patch).enter? step = some merged) :
    target.enter? step = some merged ∨ ∃ value, patch.enter? step = some value ∧
      (merged = value ∨ merged = merge ((target.enter? step).getD null) value) := by
  cases hvalue : patch.enter? step with
  | none =>
    rw [enter?_merge_none h ht hvalue] at hmerged
    exact .inl hmerged
  | some value =>
    refine .inr ⟨value, rfl, ?_⟩
    rcases enter?_merge_some h ht hvalue with ⟨-, hsame⟩ | hsame
    · exact .inl (Option.some.inj (hmerged.symm.trans hsame))
    · exact .inr (Option.some.inj (hmerged.symm.trans hsame))

end Json

/-! ### Restatement -/

namespace Template

open Json

variable {bindings : Bindings} {tree patch : Json} {step : Step}

/-- Filled in, the template has nothing but what the tree has at the same places. -/
inductive Restates (bindings : Bindings) : Json → Json → Prop
  | text {tree : Json} {text : String} : renderString bindings text = .ok tree →
    Restates bindings tree (string text)
  | inner {tree patch : Json} (step : Step) : patch.Suits step → tree.Opens step →
    (∀ step value, patch.enter? step = some value → ∃ child, tree.enter? step = some child) →
    (∀ step value child, patch.enter? step = some value → tree.enter? step = some child →
      Restates bindings child value) → Restates bindings tree patch

theorem renderString_not_opens {text : String} (h : renderString bindings text = .ok tree) :
    ¬ tree.Opens step := by
  have hscalar := renderString_isScalar h
  cases step with
  | member key =>
    rintro ⟨ms, rfl⟩
    cases hscalar.1
  | named name =>
    rintro ⟨items, rfl, -⟩
    cases hscalar.2

namespace Restates

theorem ne_null (h : Restates bindings tree patch) : patch ≠ null := by
  cases h with
  | text _ => simp
  | inner step hsuits =>
    cases step with
    | member key =>
      obtain ⟨fields, rfl, -⟩ := hsuits
      simp
    | named name =>
      obtain ⟨items, rfl, -⟩ := hsuits
      simp

theorem suits (h : Restates bindings tree patch) (hopens : tree.Opens step) :
    patch.Suits step := by
  cases h with
  | text hrender => exact absurd hopens (renderString_not_opens hrender)
  | inner own hsuits hown => exact hsuits.of_opens hown hopens

theorem enter? (h : Restates bindings tree patch) {value : Json}
    (hvalue : patch.enter? step = some value) :
    ∃ child, tree.enter? step = some child ∧ Restates bindings child value := by
  cases h with
  | text _ => cases step <;> cases hvalue
  | inner _ _ _ hfound hbelow =>
    obtain ⟨child, hchild⟩ := hfound step value hvalue
    exact ⟨child, hchild, hbelow step value child hvalue hchild⟩

theorem of_enter? (hsuits : patch.Suits step) (hopens : tree.Opens step)
    (h : ∀ step value, patch.enter? step = some value →
      ∃ child, tree.enter? step = some child ∧ Restates bindings child value) :
    Restates bindings tree patch := by
  refine .inner step hsuits hopens ?_ ?_
  · intro other value hvalue
    obtain ⟨child, hchild, -⟩ := h other value hvalue
    exact ⟨child, hchild⟩
  · intro other value child hvalue hchild
    obtain ⟨same, hsame, hrestates⟩ := h other value hvalue
    obtain rfl := Option.some.inj (hsame.symm.trans hchild)
    exact hrestates

theorem of_members {ms fields : Members} (hplain : fields.IsPlain)
    (h : ∀ key value, fields.get? key = some value →
      ∃ child, ms.get? key = some child ∧ Restates bindings child value) :
    Restates bindings (.object ms) (.object fields) := by
  have hsuits : (Json.object fields).Suits (.member mergeKey) := ⟨fields, rfl, hplain⟩
  refine of_enter? hsuits ⟨ms, rfl⟩ fun step value hvalue => ?_
  cases step with
  | member key => exact h key value hvalue
  | named name => cases hvalue

/-- One element of a list, found by its name. -/
theorem of_element {existing : List Json} {item child : Json} {name : String}
    (hplain : item.IsPlainObject) (hname : item.name? = some name) (hliteral : IsLiteral name)
    (hnamed : isNamedList existing = true) (hchild : findNamed? existing name = some child)
    (h : Restates bindings child item) : Restates bindings (.array existing) (.array [item]) := by
  have hpatch : IsNamedPatch [item] := {
    names_nodup := by simp
    plain := by simpa using hplain
    literal := by simpa [hname] using hliteral }
  have hsuits : (Json.array [item]).Suits (.named name) := ⟨[item], rfl, by simp, hpatch⟩
  refine of_enter? hsuits ⟨existing, rfl, hnamed⟩ fun step value hvalue => ?_
  cases step with
  | member key => cases hvalue
  | named other =>
    have hfound : findNamed? [item] other = some value := hvalue
    rw [findNamed?_cons, hname] at hfound
    split at hfound
    · next heq =>
      obtain rfl := Option.some.inj heq
      obtain rfl := Option.some.inj hfound
      exact ⟨child, hchild, h⟩
    · cases hfound

theorem getD_enter? {child : Json} (h : patch = null ∨ Restates bindings tree patch)
    (hchild : tree.enter? step = some child) : (patch.enter? step).getD null = null ∨
      Restates bindings child ((patch.enter? step).getD null) := by
  cases hvalue : patch.enter? step with
  | none => exact .inl rfl
  | some value =>
    rcases h with rfl | h
    · rw [enter?_null] at hvalue
      cases hvalue
    · obtain ⟨same, hsame, hrestates⟩ := h.enter? hvalue
      obtain rfl := Option.some.inj (hchild.symm.trans hsame)
      exact .inr hrestates

/-- Templates that restate a tree merge to one that does. -/
theorem merge {first second : Json} (hfirst : first = null ∨ Restates bindings tree first)
    (hsecond : Restates bindings tree second) : Restates bindings tree (first.merge second) := by
  induction hsecond generalizing first with
  | text hrender =>
    unfold Json.merge
    exact .text hrender
  | @inner tree second step hsuits hopens hfound hbelow ih =>
    have hshape : ∀ {other}, tree.Opens other → first = null ∨ first.Suits other :=
      fun hother => hfirst.imp id fun h => h.suits hother
    have hmerged := merge_suits (hshape hopens) hsuits
    refine of_enter? hmerged hopens fun other merged hvalue => ?_
    have hother : tree.Opens other := hmerged.of_enter? hopens hvalue
    have hadmits : first.Admits other := by
      rcases hshape hother with rfl | hold
      · exact (admitsAlong_null [other]).1
      · exact hold.admits
    rcases enter?_merge_cases (hsuits.of_opens hopens hother) hadmits hvalue with
      hold | ⟨value, hnew, hcases⟩
    · rcases hfirst with rfl | hfirst
      · rw [enter?_null] at hold
        cases hold
      · exact hfirst.enter? hold
    · obtain ⟨child, hchild⟩ := hfound other value hnew
      refine ⟨child, hchild, ?_⟩
      rcases hcases with rfl | rfl
      · exact hbelow other merged child hnew hchild
      · exact ih other value child hnew hchild (getD_enter? hfirst hchild)

/-- Merging the filled in template into the tree changes nothing. -/
theorem merge_render (h : Restates bindings tree patch) {data : Json}
    (hdata : render bindings patch = .ok data) : tree.merge data = tree := by
  induction h generalizing data with
  | text hrender =>
    unfold render at hdata
    obtain rfl := Except.ok.inj (hrender.symm.trans hdata)
    exact merge_renderString hrender _
  | @inner tree patch step hsuits hopens hfound hbelow ih =>
    have hpart : ∀ other value part, patch.enter? other = some value →
        render bindings value = .ok part →
          ∃ child, tree.enter? other = some child ∧ child.merge part = child := by
      intro other value part hvalue hrender
      obtain ⟨child, hchild⟩ := hfound other value hvalue
      exact ⟨child, hchild, ih other value child hvalue hchild hrender⟩
    cases step with
    | member key =>
      obtain ⟨fields, rfl, hplain⟩ := hsuits
      obtain ⟨ms, rfl⟩ := hopens
      obtain ⟨rendered, rfl, hrendered⟩ := render_object hdata
      have hsame : mergeMembers ms rendered = ms := by
        refine mergeMembers_of_get? fun e he => ?_
        obtain ⟨⟨key, value⟩, hmem, hkey, hvalue⟩ := exists_left_of_mem hrendered he
        refine ⟨render_ne_null hvalue (hplain.ne_null _ hmem), ?_⟩
        rw [hkey]
        exact hpart (.member key) value e.2 (Dict.lookup_of_mem hplain.keys_nodup hmem) hvalue
      unfold Json.merge
      exact congrArg object hsame
    | named name =>
      obtain ⟨items, rfl, hne, hitems⟩ := hsuits
      obtain ⟨existing, rfl, hnamed⟩ := hopens
      obtain ⟨rendered, rfl, hrendered⟩ := render_array hdata
      have hpatch := isNamedPatch_rendered hitems hrendered
      have hsome : rendered ≠ [] := by
        rintro rfl
        exact hne (List.forall₂_nil_right_iff.mp hrendered)
      rw [merge_array_array hsome hpatch.isNamedList hnamed]
      refine congrArg array (mergeItems_of_findNamed? fun part hmem => ?_)
      obtain ⟨item, hitem, hvalue⟩ := exists_left_of_mem hrendered hmem
      obtain ⟨own, hown, hliteral⟩ := hitems.literal item hitem
      obtain ⟨child, hchild, hsame⟩ := hpart (.named own) item part
        (findNamed?_of_mem hitems.names_nodup hitem hown) hvalue
      exact ⟨own, child, name?_render (hitems.plain item hitem) hown hliteral hvalue, hchild, hsame⟩

end Restates

end Template

end WorkloadTuning
