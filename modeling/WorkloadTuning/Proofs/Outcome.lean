import Mathlib.Data.List.Forall2
import Mathlib.Data.List.Perm.Basic
import WorkloadTuning.Error

/-! Computations that may fail, taken apart: what success of a sequence, of a pass over a list or of
a fold says about its steps. -/

namespace WorkloadTuning

variable {ε α β : Type}

theorem bind_eq_ok {x : Except ε α} {f : α → Except ε β} {b : β} :
    x >>= f = .ok b ↔ ∃ a, x = .ok a ∧ f a = .ok b := by
  cases x with
  | error e => constructor <;> simp [Bind.bind, Except.bind]
  | ok a => constructor <;> simp [Bind.bind, Except.bind]

theorem bind_eq_error {x : Except ε α} {f : α → Except ε β} {e : ε} :
    x >>= f = .error e ↔ x = .error e ∨ ∃ a, x = .ok a ∧ f a = .error e := by
  cases x with
  | error d => constructor <;> simp [Bind.bind, Except.bind]
  | ok a => constructor <;> simp [Bind.bind, Except.bind]

theorem map_eq_ok {x : Except ε α} {f : α → β} {b : β} :
    x.map f = .ok b ↔ ∃ a, x = .ok a ∧ f a = b := by
  cases x <;> simp [Except.map]

theorem mapError_eq_ok {δ : Type} {x : Except ε α} {f : ε → δ} {a : α} :
    x.mapError f = .ok a ↔ x = .ok a := by
  cases x <;> simp [Except.mapError]

theorem map_isOk_iff {x : Except ε α} {f : α → β} : (∃ b, x.map f = .ok b) ↔ ∃ a, x = .ok a := by
  simp [map_eq_ok]

@[simp] theorem isOk_map {x : Except ε α} {f : α → β} : (x.map f).isOk = x.isOk := by
  cases x <;> rfl

/-- Two computations in a row yield something with a property if each yields its share of it. -/
theorem bind_bind_eq_ok_iff {γ : Type} {x : Except ε α} {y : Except ε β} {f : α → β → γ}
    {P : α → Prop} {Q : β → Prop} {R : γ → Prop} (h : ∀ a b, R (f a b) ↔ P a ∧ Q b) :
    (∃ c, (x >>= fun a => y >>= fun b => pure (f a b)) = .ok c ∧ R c) ↔
      (∃ a, x = .ok a ∧ P a) ∧ ∃ b, y = .ok b ∧ Q b := by
  cases x with
  | error e => simp [Bind.bind, Except.bind]
  | ok a =>
    cases y with
    | error e => simp [Bind.bind, Except.bind]
    | ok b => simp [Bind.bind, Except.bind, Pure.pure, Except.pure, h]

theorem bind_bind_isOk_iff {γ : Type} {x : Except ε α} {y : Except ε β} {f : α → β → γ} :
    (∃ c, (x >>= fun a => y >>= fun b => pure (f a b)) = .ok c) ↔
      (∃ a, x = .ok a) ∧ ∃ b, y = .ok b := by
  simpa using bind_bind_eq_ok_iff (x := x) (y := y) (f := f) (P := fun _ => True)
    (Q := fun _ => True) (R := fun _ => True) (by simp)

theorem mapM_eq_ok {f : α → Except ε β} {l : List α} {r : List β} :
    l.mapM f = .ok r ↔ List.Forall₂ (fun a b => f a = .ok b) l r := by
  induction l generalizing r with
  | nil =>
    rw [List.mapM_nil, List.forall₂_nil_left_iff]
    constructor
    · intro h
      exact (Except.ok.inj h).symm
    · rintro rfl
      rfl
  | cons a rest ih =>
    rw [List.mapM_cons, bind_eq_ok, List.forall₂_cons_left_iff]
    constructor
    · rintro ⟨b, hb, h⟩
      obtain ⟨later, hlater, heq⟩ := bind_eq_ok.mp h
      exact ⟨b, later, hb, ih.mp hlater, (Except.ok.inj heq).symm⟩
    · rintro ⟨b, later, hb, hlater, rfl⟩
      exact ⟨b, hb, bind_eq_ok.mpr ⟨later, ih.mpr hlater, rfl⟩⟩

/-- A pass over a list fails with the failure of one of its elements. -/
theorem exists_of_mapM_eq_error {f : α → Except ε β} {l : List α} {e : ε}
    (h : l.mapM f = .error e) : ∃ a ∈ l, f a = .error e := by
  induction l with
  | nil => cases h
  | cons a rest ih =>
    rw [List.mapM_cons, bind_eq_error] at h
    rcases h with h | ⟨b, -, h⟩
    · exact ⟨a, List.mem_cons_self, h⟩
    · rcases bind_eq_error.mp h with h | ⟨later, -, h⟩
      · obtain ⟨x, hx, hfails⟩ := ih h
        exact ⟨x, List.mem_cons_of_mem _ hx, hfails⟩
      · cases h

theorem exists_left_of_mem {R : α → β → Prop} {l : List α} {r : List β} (h : List.Forall₂ R l r)
    {b : β} (hb : b ∈ r) : ∃ a ∈ l, R a b := by
  induction h with
  | nil => simp at hb
  | cons hhead _ ih =>
    rcases List.mem_cons.mp hb with rfl | hb
    · exact ⟨_, List.mem_cons_self, hhead⟩
    · obtain ⟨a, ha, hab⟩ := ih hb
      exact ⟨a, List.mem_cons_of_mem _ ha, hab⟩

theorem exists_right_of_mem {R : α → β → Prop} {l : List α} {r : List β} (h : List.Forall₂ R l r)
    {a : α} (ha : a ∈ l) : ∃ b ∈ r, R a b :=
  exists_left_of_mem h.flip ha

theorem forall₂_trans {γ : Type} {R : α → β → Prop} {S : β → γ → Prop} {T : α → γ → Prop}
    {l : List α} {m : List β} {r : List γ} (h : List.Forall₂ R l m) (hlater : List.Forall₂ S m r)
    (hstep : ∀ a b c, R a b → S b c → T a c) : List.Forall₂ T l r := by
  induction h generalizing r with
  | nil =>
    obtain rfl := List.forall₂_nil_left_iff.mp hlater
    exact .nil
  | cons hhead _ ih =>
    obtain ⟨c, rest, hc, hrest, rfl⟩ := List.forall₂_cons_left_iff.mp hlater
    exact .cons (hstep _ _ c hhead hc) (ih hrest)

theorem forall₂_getLast? {R : α → β → Prop} {l : List α} {r : List β} (h : List.Forall₂ R l r) :
    Option.Rel R l.getLast? r.getLast? := by
  induction h with
  | nil => exact .none
  | cons hhead hrest ih =>
    cases hrest with
    | nil => exact .some hhead
    | cons _ _ =>
      rw [List.getLast?_cons_cons, List.getLast?_cons_cons]
      exact ih

theorem forall₂_dropLast {R : α → β → Prop} {l : List α} {r : List β} (h : List.Forall₂ R l r) :
    List.Forall₂ R l.dropLast r.dropLast := by
  rw [List.dropLast_eq_take, List.dropLast_eq_take, h.length_eq]
  exact List.forall₂_take _ h

/-- Where a pass yields something for every element, dropping what it does not yield drops nothing. -/
theorem forall₂_filterMap_id {R : α → Option β → Prop} {l : List α} {found : List (Option β)}
    (h : List.Forall₂ R l found) (hall : ∀ o ∈ found, o.isSome) :
    List.Forall₂ (fun a b => R a (some b)) l (found.filterMap id) := by
  induction h with
  | nil => exact .nil
  | @cons a o _ _ hhead _ ih =>
    obtain ⟨b, rfl⟩ := Option.isSome_iff_exists.mp (hall o List.mem_cons_self)
    exact .cons hhead (ih fun o ho => hall o (List.mem_cons_of_mem _ ho))

/-- Lists that correspond do so in a further way if that says something of the left elements only. -/
theorem forall₂_iff_left {R S : α → β → Prop} {P : α → Prop} {l : List α} {r : List β}
    (h : List.Forall₂ R l r) (hiff : ∀ a b, R a b → (S a b ↔ P a)) :
    List.Forall₂ S l r ↔ ∀ a ∈ l, P a := by
  induction h with
  | nil => simp
  | cons hhead _ ih => rw [List.forall₂_cons, List.forall_mem_cons, hiff _ _ hhead, ih]

/-- What a pass over a list yields comes from an element of the list. -/
theorem exists_of_mem_mapM {f : α → Except ε β} {l : List α} {r : List β} (h : l.mapM f = .ok r)
    {b : β} (hb : b ∈ r) : ∃ a ∈ l, f a = .ok b :=
  exists_left_of_mem (mapM_eq_ok.mp h) hb

theorem mapM_ok {f : α → Except ε β} {l : List α} (h : ∀ a ∈ l, ∃ b, f a = .ok b) :
    ∃ r, l.mapM f = .ok r := by
  induction l with
  | nil => exact ⟨[], rfl⟩
  | cons a rest ih =>
    obtain ⟨b, hb⟩ := h a List.mem_cons_self
    obtain ⟨later, hlater⟩ := ih fun x hx => h x (List.mem_cons_of_mem _ hx)
    refine ⟨b :: later, ?_⟩
    rw [List.mapM_cons, hb, hlater]
    rfl

theorem mapM_isOk_iff {f : α → Except ε β} {l : List α} :
    (∃ r, l.mapM f = .ok r) ↔ ∀ a ∈ l, ∃ b, f a = .ok b := by
  refine ⟨?_, mapM_ok⟩
  rintro ⟨r, hr⟩ a ha
  obtain ⟨b, -, hb⟩ := exists_right_of_mem (mapM_eq_ok.mp hr) ha
  exact ⟨b, hb⟩

theorem mapM_congr {f g : α → Except ε β} {l : List α} (h : ∀ a ∈ l, f a = g a) :
    l.mapM f = l.mapM g := by
  induction l with
  | nil => rfl
  | cons a rest ih =>
    rw [List.mapM_cons, List.mapM_cons, h a List.mem_cons_self,
      ih fun x hx => h x (List.mem_cons_of_mem _ hx)]

/-- A pass over the same elements in another order yields the same in another order. -/
theorem mapM_perm {f : α → Except ε β} {l other : List α} (hperm : l.Perm other) {r : List β}
    (h : l.mapM f = .ok r) : ∃ again, other.mapM f = .ok again ∧ r.Perm again := by
  obtain ⟨again, hall, hagain⟩ := List.perm_comp_forall₂ hperm.symm (mapM_eq_ok.mp h)
  exact ⟨again, mapM_eq_ok.mpr hall, hagain.symm⟩

/-- Where the steps of one pass follow those of another, so do the passes. -/
theorem mapM_rel {γ : Type} {f : α → Except ε β} {g : α → Except ε γ} {R : β → γ → Prop}
    (hstep : ∀ a b, f a = .ok b → ∃ c, g a = .ok c ∧ R b c) {l : List α} {r : List β}
    (h : l.mapM f = .ok r) : ∃ later, l.mapM g = .ok later ∧ List.Forall₂ R r later := by
  have hall := mapM_eq_ok.mp h
  clear h
  induction hall with
  | nil => exact ⟨[], rfl, .nil⟩
  | cons hhead _ ih =>
    obtain ⟨c, hc, hR⟩ := hstep _ _ hhead
    obtain ⟨later, hlater, hrest⟩ := ih
    refine ⟨c :: later, ?_, .cons hR hrest⟩
    rw [List.mapM_cons, hc, hlater]
    rfl

theorem foldlM_ok {f : β → α → Except ε β} {l : List α}
    (h : ∀ a ∈ l, ∀ b, ∃ c, f b a = .ok c) (start : β) : ∃ r, l.foldlM f start = .ok r := by
  induction l generalizing start with
  | nil => exact ⟨start, rfl⟩
  | cons a rest ih =>
    obtain ⟨next, hnext⟩ := h a List.mem_cons_self start
    obtain ⟨r, hr⟩ := ih (fun x hx => h x (List.mem_cons_of_mem _ hx)) next
    exact ⟨r, by rw [List.foldlM_cons, hnext]; exact hr⟩

/-- A property that the start has and every step keeps holds at the end of a fold. -/
theorem foldlM_keeps {I : β → Prop} {f : β → α → Except ε β} {l : List α} {start r : β}
    (hstart : I start) (hstep : ∀ a ∈ l, ∀ b c, I b → f b a = .ok c → I c)
    (h : l.foldlM f start = .ok r) : I r := by
  induction l generalizing start with
  | nil =>
    obtain rfl : start = r := Except.ok.inj h
    exact hstart
  | cons a rest ih =>
    rw [List.foldlM_cons] at h
    obtain ⟨next, hnext, hrest⟩ := bind_eq_ok.mp h
    exact ih (hstep a List.mem_cons_self start next hstart hnext)
      (fun x hx => hstep x (List.mem_cons_of_mem _ hx)) hrest

end WorkloadTuning
