import WorkloadTuning.Proofs.Template.References
import WorkloadTuning.Proofs.Trial.Bindings

/-! When the patches of a trial can be rendered. Parameters are bound by name: a parameter that the
trial does not assign needs a parameter of its name that has no choice, and of several parameters of
a name the first decides. -/

namespace WorkloadTuning

open Template (references KeepsShape)

theorem PatchTemplate.render_isOk_iff {template : PatchTemplate} {bindings : Bindings} {t : Trial} :
    (∃ op, template.render bindings t = .ok op) ↔
      ∃ names, references template.patch = .ok names ∧
        ∀ name ∈ names, (bindings.get? name).isSome := by
  rw [← Template.render_isOk_iff_references]
  simp [PatchTemplate.render, bind_eq_ok, mapError_eq_ok, Pure.pure, Except.pure]

/-- A parameter of the name has no choice. -/
def Experiment.HasOnlyValue (e : Experiment) (name : String) : Prop :=
  ∃ p ∈ e.spec.parameters, p.name = name ∧ p.isDegenerate

namespace Trial

variable {t : Trial} {e : Experiment}

def Assigns (t : Trial) (name : String) : Prop :=
  ∃ a ∈ t.spec.assignments, a.name = name

/-- Every parameter with a choice is assigned, or goes by a name whose first parameter has none. -/
def IsComplete (t : Trial) (e : Experiment) : Prop :=
  ∀ p ∈ e.spec.parameters, p.isDegenerate = false →
    t.Assigns p.name ∨ ∃ first, e.parameter? p.name = some first ∧ first.isDegenerate

/-- The references of every template are well formed, and have a value in the trial or the
experiment. -/
def IsSupplied (t : Trial) (e : Experiment) : Prop :=
  ∀ template ∈ e.spec.patches, ∃ names, references template.patch = .ok names ∧
    ∀ name ∈ names, t.Assigns name ∨ e.HasOnlyValue name

theorem bindings_isOk_iff : (∃ bindings, t.bindings e = .ok bindings) ↔ t.IsComplete e := by
  rw [bindings_ok_iff]
  constructor
  · intro h p hp _
    exact bound?_isSome_iff.mp (h p hp)
  · intro h p hp
    obtain ⟨first, hfirst⟩ := Experiment.exists_parameter? hp
    obtain ⟨hmem, hname⟩ := Experiment.mem_of_parameter? hfirst
    rw [bound?_isSome_iff]
    -- The first parameter of the name has a value of its own, or is itself asked for one.
    cases hsingle : first.isDegenerate with
    | true => exact .inr ⟨first, hfirst, hsingle⟩
    | false =>
      have hself := h first hmem hsingle
      rwa [hname] at hself

theorem isSome_get?_iff {bindings : Bindings} (h : t.bindings e = .ok bindings) {name : String} :
    (bindings.get? name).isSome ↔ t.Assigns name ∨ e.HasOnlyValue name := by
  rw [bindings_get? h, bound?_isSome_iff]
  constructor
  · rintro (hassigned | ⟨first, hfirst, hsingle⟩)
    · exact .inl hassigned
    · obtain ⟨hmem, hname⟩ := Experiment.mem_of_parameter? hfirst
      exact .inr ⟨first, hmem, hname, hsingle⟩
  · rintro (hassigned | ⟨p, hp, rfl, -⟩)
    · exact .inl hassigned
    · exact bound?_isSome_iff.mp (bindings_ok_iff.mp ⟨bindings, h⟩ p hp)

theorem renderPatches_isOk_iff :
    (∃ ops, t.renderPatches e = .ok ops) ↔ t.IsComplete e ∧ t.IsSupplied e := by
  rw [← bindings_isOk_iff]
  cases hbindings : t.bindings e with
  | error e => simp [renderPatches, hbindings, Bind.bind, Except.bind]
  | ok bindings =>
    have hpatches : (∃ ops, t.renderPatches e = .ok ops) ↔
        ∃ ops, e.spec.patches.mapM (fun template => template.render bindings t) = .ok ops := by
      rw [renderPatches, hbindings]
      rfl
    rw [hpatches, mapM_isOk_iff]
    simp only [PatchTemplate.render_isOk_iff, isSome_get?_iff hbindings, IsSupplied]
    simp

theorem isComplete_iff_of_nodup (hnames : (e.spec.parameters.map Parameter.name).Nodup) :
    t.IsComplete e ↔ ∀ p ∈ e.spec.parameters, p.isDegenerate = false → t.Assigns p.name := by
  refine forall₃_congr fun p hp hchoice => ?_
  simp [Experiment.parameter?_of_mem hnames hp, hchoice]

/-- Rendering depends on the referenced parameters and on no others: it succeeds if each of them is
bound, goes by what they are bound to, and changes nothing but texts. So the patches of a trial are
rendered if its parameters and the references of the templates have values; where names do not
repeat, the parameters do if those with a choice are assigned. -/
theorem rendering_by_references :
    (∀ (bindings : Bindings) (doc : Json),
      ((∃ rendered, Template.render bindings doc = .ok rendered) ↔
        ∃ names, references doc = .ok names ∧ ∀ name ∈ names, (bindings.get? name).isSome) ∧
      (∀ (other : Bindings) (names : List String), references doc = .ok names →
        (∀ name ∈ names, bindings.get? name = other.get? name) →
          Template.render bindings doc = Template.render other doc) ∧
      ∀ rendered, Template.render bindings doc = .ok rendered → KeepsShape doc rendered) ∧
    ∀ (e : Experiment) (t : Trial),
      ((∃ ops, t.renderPatches e = .ok ops) ↔ t.IsComplete e ∧ t.IsSupplied e) ∧
      ((e.spec.parameters.map Parameter.name).Nodup → ((∃ ops, t.renderPatches e = .ok ops) ↔
        (∀ p ∈ e.spec.parameters, p.isDegenerate = false → t.Assigns p.name) ∧
          t.IsSupplied e)) := by
  refine ⟨fun bindings doc => ⟨Template.render_isOk_iff_references, ?_, ?_⟩, fun e t => ⟨?_, ?_⟩⟩
  · intro other names hnames hagree
    exact Template.render_congr_references hnames hagree
  · intro rendered hrendered
    exact Template.render_keepsShape doc hrendered
  · exact renderPatches_isOk_iff
  · intro hnames
    rw [renderPatches_isOk_iff, isComplete_iff_of_nodup hnames]

/-- Two parameters of one name, the first without a choice. -/
def repeatedName : Experiment :=
  { metadata := { name := "web" }
    spec := { parameters := [{ name := "cpu", min := 2, max := 2 },
      { name := "cpu", min := 1, max := 5 }] } }

/-- The second parameter has a choice and is not assigned, but the name is bound by the first. -/
theorem repeatedName_renders : let t : Trial := { metadata := { name := "web-001" } }
    (∃ ops, t.renderPatches repeatedName = .ok ops) ∧
    ¬ ∀ p ∈ repeatedName.spec.parameters, p.isDegenerate = false → t.Assigns p.name := by
  refine ⟨⟨[], by decide⟩, fun h => ?_⟩
  obtain ⟨a, ha, -⟩ := h { name := "cpu", min := 1, max := 5 } (by simp [repeatedName]) (by decide)
  exact absurd ha List.not_mem_nil

end Trial

end WorkloadTuning
