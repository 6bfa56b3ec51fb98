import WorkloadTuning.Proofs.Json.Location
import WorkloadTuning.Proofs.Outcome
import WorkloadTuning.Template

/-! Rendering seen from one location: the rendered document has there what the template's value is
rendered to, and a patch keeps its shape along the location. -/

namespace WorkloadTuning.Template

open Json

variable {bindings : Bindings}

/-! ### Parts of rendered documents -/

theorem renderItems_eq_ok {items rendered : List Json} :
    renderItems bindings items = .ok rendered ↔
      List.Forall₂ (fun item r => render bindings item = .ok r) items rendered := by
  induction items generalizing rendered with
  | nil =>
    rw [renderItems, List.forall₂_nil_left_iff]
    constructor
    · intro h
      exact (Except.ok.inj h).symm
    · rintro rfl
      rfl
  | cons item rest ih =>
    rw [renderItems, bind_eq_ok, List.forall₂_cons_left_iff]
    constructor
    · rintro ⟨first, hfirst, h⟩
      obtain ⟨later, hlater, h⟩ := bind_eq_ok.mp h
      exact ⟨first, later, hfirst, ih.mp hlater, (Except.ok.inj h).symm⟩
    · rintro ⟨first, later, hfirst, hlater, rfl⟩
      exact ⟨first, hfirst, bind_eq_ok.mpr ⟨later, ih.mpr hlater, rfl⟩⟩

theorem renderMembers_eq_ok {members rendered : Members} :
    renderMembers bindings members = .ok rendered ↔
      List.Forall₂ (fun e r => r.1 = e.1 ∧ render bindings e.2 = .ok r.2) members rendered := by
  induction members generalizing rendered with
  | nil =>
    rw [renderMembers, List.forall₂_nil_left_iff]
    constructor
    · intro h
      exact (Except.ok.inj h).symm
    · rintro rfl
      rfl
  | cons e rest ih =>
    obtain ⟨key, value⟩ := e
    rw [renderMembers, bind_eq_ok, List.forall₂_cons_left_iff]
    constructor
    · rintro ⟨first, hfirst, h⟩
      obtain ⟨later, hlater, h⟩ := bind_eq_ok.mp h
      exact ⟨(key, first), later, ⟨rfl, hfirst⟩, ih.mp hlater, (Except.ok.inj h).symm⟩
    · rintro ⟨⟨own, first⟩, later, ⟨hkey, hfirst⟩, hlater, rfl⟩
      obtain rfl : own = key := hkey
      exact ⟨first, hfirst, bind_eq_ok.mpr ⟨later, ih.mpr hlater, rfl⟩⟩

theorem render_object {members : Members} {d : Json}
    (h : render bindings (object members) = .ok d) : ∃ rendered, d = object rendered ∧
      List.Forall₂ (fun e r => r.1 = e.1 ∧ render bindings e.2 = .ok r.2) members rendered := by
  unfold render at h
  obtain ⟨rendered, hrendered, rfl⟩ := map_eq_ok.mp h
  exact ⟨rendered, rfl, renderMembers_eq_ok.mp hrendered⟩

theorem render_array {items : List Json} {d : Json} (h : render bindings (array items) = .ok d) :
    ∃ rendered, d = array rendered ∧
      List.Forall₂ (fun item r => render bindings item = .ok r) items rendered := by
  unfold render at h
  obtain ⟨rendered, hrendered, rfl⟩ := map_eq_ok.mp h
  exact ⟨rendered, rfl, renderItems_eq_ok.mp hrendered⟩

theorem renderString_ne_null {text : String} {d : Json} (h : renderString bindings text = .ok d) :
    d ≠ .null := by
  rcases renderString_cases h with ⟨s, rfl⟩ | ⟨i, rfl⟩ <;> simp [ofInt]

theorem renderString_isScalar {text : String} {d : Json} (h : renderString bindings text = .ok d) :
    d.asObject? = none ∧ d.asArray? = none := by
  rcases renderString_cases h with ⟨s, rfl⟩ | ⟨i, rfl⟩ <;> exact ⟨rfl, rfl⟩

theorem render_ne_null {p d : Json} (h : render bindings p = .ok d) (hne : p ≠ .null) :
    d ≠ .null := by
  cases p with
  | null => exact absurd rfl hne
  | string text =>
    unfold render at h
    exact renderString_ne_null h
  | object members =>
    obtain ⟨rendered, rfl, -⟩ := render_object h
    simp
  | array items =>
    obtain ⟨rendered, rfl, -⟩ := render_array h
    simp
  | bool b =>
    unfold render at h
    obtain rfl := Except.ok.inj h
    simp
  | number n =>
    unfold render at h
    obtain rfl := Except.ok.inj h
    simp

section Members
variable {members rendered : Members}

theorem keys_rendered
    (h : List.Forall₂ (fun e r => r.1 = e.1 ∧ render bindings e.2 = .ok r.2) members rendered) :
    rendered.keys = members.keys := by
  induction h with
  | nil => rfl
  | cons hhead _ ih => exact congrArg₂ List.cons hhead.1 ih

theorem isPlain_rendered (hplain : members.IsPlain)
    (h : List.Forall₂ (fun e r => r.1 = e.1 ∧ render bindings e.2 = .ok r.2) members rendered) :
    rendered.IsPlain where
  keys_nodup := by
    rw [keys_rendered h]
    exact hplain.keys_nodup
  ne_null := by
    induction h with
    | nil => simp
    | cons hhead _ ih =>
      intro r hr
      rcases List.mem_cons.mp hr with rfl | hr
      · exact render_ne_null hhead.2 (hplain.ne_null _ List.mem_cons_self)
      · exact ih hplain.tail r hr

theorem get?_rendered
    (h : List.Forall₂ (fun e r => r.1 = e.1 ∧ render bindings e.2 = .ok r.2) members rendered)
    (key : String) : Option.Rel (fun v w => render bindings v = .ok w)
      (members.get? key) (rendered.get? key) := by
  induction h with
  | nil => exact .none
  | @cons e r _ _ hhead _ ih =>
    obtain ⟨k, v⟩ := e
    obtain ⟨own, w⟩ := r
    obtain ⟨rfl, hvalue⟩ : own = k ∧ _ := hhead
    rw [Members.get?_cons, Members.get?_cons]
    split
    · exact .some hvalue
    · exact ih

end Members

theorem isPlainObject_rendered {p d : Json} (h : p.IsPlainObject)
    (hrender : render bindings p = .ok d) : d.IsPlainObject := by
  obtain ⟨members, rfl, hplain⟩ := h
  obtain ⟨rendered, rfl, hrendered⟩ := render_object hrender
  exact ⟨rendered, rfl, isPlain_rendered hplain hrendered⟩

theorem get?_render {p d : Json} (h : p.IsPlainObject) (hrender : render bindings p = .ok d)
    (key : String) :
    Option.Rel (fun v w => render bindings v = .ok w) (p.get? key) (d.get? key) := by
  obtain ⟨members, rfl, -⟩ := h
  obtain ⟨rendered, rfl, hrendered⟩ := render_object hrender
  exact get?_rendered hrendered key

/-- A literal name is rendered to itself. -/
theorem name?_render {p d : Json} {name : String} (h : p.IsPlainObject)
    (hname : p.name? = some name) (hliteral : IsLiteral name)
    (hrender : render bindings p = .ok d) : d.name? = some name := by
  rw [name?_eq_some_iff] at hname ⊢
  have hrel := get?_render h hrender mergeKey
  rw [hname] at hrel
  cases hd : d.get? mergeKey with
  | none =>
    rw [hd] at hrel
    cases hrel
  | some w =>
    rw [hd] at hrel
    obtain ⟨hw⟩ := hrel
    rw [render, renderString_literal bindings hliteral] at hw
    rw [Except.ok.inj hw]

section Items
variable {items rendered : List Json}

theorem names_rendered (hitems : IsNamedPatch items)
    (h : List.Forall₂ (fun item r => render bindings item = .ok r) items rendered) :
    rendered.map name? = items.map name? := by
  induction h with
  | nil => rfl
  | cons hhead _ ih =>
    obtain ⟨name, hname, hliteral⟩ := hitems.literal _ List.mem_cons_self
    have hsame := name?_render (hitems.plain _ List.mem_cons_self) hname hliteral hhead
    rw [List.map_cons, List.map_cons, ih hitems.tail, hsame, hname]

theorem isNamedPatch_rendered (hitems : IsNamedPatch items)
    (h : List.Forall₂ (fun item r => render bindings item = .ok r) items rendered) :
    IsNamedPatch rendered := by
  refine ⟨by rw [names_rendered hitems h]; exact hitems.names_nodup, ?_, ?_⟩
  · induction h with
    | nil => simp
    | cons hhead _ ih =>
      intro r hr
      rcases List.mem_cons.mp hr with rfl | hr
      · exact isPlainObject_rendered (hitems.plain _ List.mem_cons_self) hhead
      · exact ih hitems.tail r hr
  · induction h with
    | nil => simp
    | cons hhead _ ih =>
      intro r hr
      rcases List.mem_cons.mp hr with rfl | hr
      · obtain ⟨name, hname, hliteral⟩ := hitems.literal _ List.mem_cons_self
        exact ⟨name, name?_render (hitems.plain _ List.mem_cons_self) hname hliteral hhead, hliteral⟩
      · exact ih hitems.tail r hr

theorem findNamed?_rendered (hitems : IsNamedPatch items)
    (h : List.Forall₂ (fun item r => render bindings item = .ok r) items rendered)
    (name : String) : Option.Rel (fun v w => render bindings v = .ok w)
      (findNamed? items name) (findNamed? rendered name) := by
  induction h with
  | nil => exact .none
  | cons hhead _ ih =>
    obtain ⟨own, hown, hliteral⟩ := hitems.literal _ List.mem_cons_self
    have hsame := name?_render (hitems.plain _ List.mem_cons_self) hown hliteral hhead
    rw [findNamed?_cons, findNamed?_cons, hown, hsame]
    split
    · exact .some hhead
    · exact ih hitems.tail

end Items

/-! ### Locations in rendered documents -/

theorem suits_rendered {p d : Json} {step : Step} (h : p.Suits step)
    (hrender : render bindings p = .ok d) : d.Suits step := by
  cases step with
  | member key => exact isPlainObject_rendered h hrender
  | named name =>
    obtain ⟨items, rfl, hne, hitems⟩ := h
    obtain ⟨rendered, rfl, hrendered⟩ := render_array hrender
    refine ⟨rendered, rfl, ?_, isNamedPatch_rendered hitems hrendered⟩
    rintro rfl
    exact hne (List.forall₂_nil_right_iff.mp hrendered)

theorem enter?_render {p d : Json} {step : Step} (h : p.Suits step)
    (hrender : render bindings p = .ok d) :
    Option.Rel (fun v w => render bindings v = .ok w) (p.enter? step) (d.enter? step) := by
  cases step with
  | member key => exact get?_render h hrender key
  | named name =>
    obtain ⟨items, rfl, -, hitems⟩ := h
    obtain ⟨rendered, rfl, hrendered⟩ := render_array hrender
    exact findNamed?_rendered hitems hrendered name

/-- What is at a location of the rendered document is what the template has there, rendered. -/
theorem reach?_render {p d : Json} {location : Location} (h : p.Overlays location)
    (hrender : render bindings p = .ok d) :
    Option.Rel (fun v w => render bindings v = .ok w) (p.reach? location) (d.reach? location) := by
  induction location generalizing p d with
  | nil => exact .some hrender
  | cons step rest ih =>
    have hentered := enter?_render h.1 hrender
    unfold reach?
    cases hp : p.enter? step with
    | none =>
      rw [hp] at hentered
      cases hd : d.enter? step with
      | none => exact .none
      | some w =>
        rw [hd] at hentered
        cases hentered
    | some v =>
      rw [hp] at hentered
      cases hd : d.enter? step with
      | none =>
        rw [hd] at hentered
        cases hentered
      | some w =>
        rw [hd] at hentered
        obtain ⟨hw⟩ := hentered
        exact ih (h.2 v hp) hw

theorem overlays_rendered {p d : Json} {location : Location} (h : p.Overlays location)
    (hrender : render bindings p = .ok d) : d.Overlays location := by
  induction location generalizing p d with
  | nil => trivial
  | cons step rest ih =>
    refine ⟨suits_rendered h.1 hrender, fun w hw => ?_⟩
    have hentered := enter?_render h.1 hrender
    rw [hw] at hentered
    cases hp : p.enter? step with
    | none =>
      rw [hp] at hentered
      cases hentered
    | some v =>
      rw [hp] at hentered
      obtain ⟨hv⟩ := hentered
      exact ih (h.2 v hp) hv

end WorkloadTuning.Template
