import WorkloadTuning.Proofs.Generation.Settled
import WorkloadTuning.Proofs.Generation.Fragments
import WorkloadTuning.Proofs.Quantity.Whole

/-! Reading a field again after its baseline has been written: where the spots of the field hold the
baseline, and what has no baseline is as before, the selector reads the settled field. -/

namespace WorkloadTuning

open Json

/-! ### Replicas -/

theorem ReplicaSelector.fieldAt_settled {s : ReplicaSelector} {target : ObjectReference}
    {path : FieldPath} {value next : Option Json} {field? : Option ReplicaField}
    (h : s.fieldAt target path value = .ok field?)
    (hwritten : ∀ f ∈ field?, ∀ count, f.baseline? = some count →
      next = some (.ofInt count.toInt))
    (hkept : (∀ f ∈ field?, f.baseline? = none) → next = value) :
    s.fieldAt target path next = .ok (field?.map ReplicaField.settled) := by
  cases field? with
  | none =>
    rw [hkept (by simp)]
    exact h
  | some f =>
    obtain ⟨htarget, hpath⟩ := fieldAt_eq_some h
    cases hbaseline : f.baseline? with
    | none =>
      have hsame : f.settled = f := by simp [ReplicaField.settled, hbaseline]
      rw [hkept (by simp [hbaseline]), Option.map_some, hsame]
      exact h
    | some count =>
      have hfits : fitsInt32 count.toInt = true := by
        have hlow := count.le_toInt
        have hhigh := count.toInt_lt
        simp only [fitsInt32, Bool.and_eq_true, decide_eq_true_eq]
        omega
      have hsettled : f.settled = ⟨target, path, some count⟩ := by
        simp [ReplicaField.settled, hbaseline, htarget, hpath]
      rw [hwritten f rfl count hbaseline, Option.map_some, hsettled]
      show (if fitsInt32 count.toInt = true then
        Except.ok (some (⟨target, path, some (Int32.ofInt count.toInt)⟩ : ReplicaField))
        else _) = _
      rw [if_pos hfits, Int32.ofInt_toInt]

/-! ### Containers -/

namespace ContainerSelector

variable {s : ContainerSelector} {target : ObjectReference} {path : FieldPath}
  {container next : Json}

/-- The cpu that a container declares, in thousandths. -/
def cpuOf (container : Json) : Outcome (Option Int) :=
  (readDeclared container "cpu").map (Option.map Quantity.milliValue)

/-- The memory that a container declares, with the unit to tune it in. -/
def memoryOf (container : Json) : Outcome (Option (Int × MemoryUnit)) := do
  (← readDeclared container "memory").mapM memoryIn

/-- The field of a container that declares these amounts. -/
def fieldOf (s : ContainerSelector) (target : ObjectReference) (path : FieldPath)
    (cpu : Option Int) (memory : Option (Int × MemoryUnit)) : Option ContainerField :=
  if cpu.isNone && memory.isNone && !s.create then none
  else some { target, path, cpu, memory := memory.map Prod.fst
              unit := (memory.map Prod.snd).getD .mebibytes
              synthesized := cpu.isNone && memory.isNone }

theorem fieldAt_eq_ok {field? : Option ContainerField} :
    s.fieldAt target path container = .ok field? ↔ ∃ cpu memory, cpuOf container = .ok cpu ∧
      memoryOf container = .ok memory ∧ field? = s.fieldOf target path cpu memory := by
  have hend : ∀ cpu memory, (if (Option.isNone cpu && Option.isNone memory && !s.create) = true then
        (pure none : Outcome (Option ContainerField))
      else pure (some { target, path, cpu, memory := memory.map Prod.fst
                        unit := (memory.map Prod.snd).getD .mebibytes
                        synthesized := cpu.isNone && memory.isNone })) =
      .ok (s.fieldOf target path cpu memory) := by
    intro cpu memory
    unfold fieldOf
    split <;> rfl
  constructor
  · intro h
    obtain ⟨cpu, hcpu, h⟩ := bind_eq_ok.mp h
    obtain ⟨quantity, hquantity, h⟩ := bind_eq_ok.mp h
    obtain ⟨memory, hmemory, h⟩ := bind_eq_ok.mp h
    refine ⟨_, memory, map_eq_ok.mpr ⟨cpu, hcpu, rfl⟩,
      bind_eq_ok.mpr ⟨quantity, hquantity, hmemory⟩, ?_⟩
    exact (Except.ok.inj ((hend _ memory).symm.trans h)).symm
  · rintro ⟨cpu, memory, hcpu, hmemory, rfl⟩
    obtain ⟨declared, hdeclared, rfl⟩ := map_eq_ok.mp hcpu
    obtain ⟨quantity, hquantity, hmemory⟩ := bind_eq_ok.mp hmemory
    exact bind_eq_ok.mpr ⟨declared, hdeclared, bind_eq_ok.mpr ⟨quantity, hquantity,
      bind_eq_ok.mpr ⟨memory, hmemory, hend _ memory⟩⟩⟩

/-- What the container declares at one of the two places. -/
def declaredAt (container : Json) (requested : Bool) (suffix : String) : Option Json :=
  container.follow? ["resources", Spot.declarationKey requested, suffix]

theorem declared?_eq (container : Json) (suffix : String) :
    declared? container suffix =
      (declaredAt container false suffix).or (declaredAt container true suffix) :=
  rfl

/-- The amount that is written for a baseline is read as it is. -/
theorem readDeclared_written {b : ResourceBaseline} {suffix : String} {thousandths : Int}
    (hunit : Quantity.IsUnit b.unit thousandths) (hpos : 0 < b.value)
    (hwritten : ∀ requested, declaredAt container requested suffix =
      some (.string (toString b.settled.value ++ b.unit))) :
    readDeclared container suffix = .ok (some ⟨toString b.settled.value ++ b.unit,
      b.settled.value * thousandths⟩) := by
  have hvalue : b.settled.value = (clampInt32 b.value).toInt := rfl
  have hclamp := toInt_clampInt32 b.value
  obtain ⟨n, hn⟩ : ∃ n : Nat, b.settled.value = n := ⟨b.settled.value.toNat, by omega⟩
  have hparse := Quantity.parse_whole (n := n) hunit (by omega)
  have hdeclared : declared? container suffix =
      some (.string (toString b.settled.value ++ b.unit)) := by
    rw [declared?_eq, hwritten false, Option.some_or]
  rw [readDeclared, hdeclared, hn]
  show ((Quantity.parse (toString n ++ b.unit)).mapError Error.quantity).map some = _
  rw [hparse]
  rfl

theorem readDeclared_kept {suffix : String} (hkept : ∀ requested,
    declaredAt next requested suffix = declaredAt container requested suffix) :
    readDeclared next suffix = readDeclared container suffix := by
  rw [readDeclared, readDeclared, declared?_eq, declared?_eq, hkept false, hkept true]

/-- The container declares the field's baselines at both places, and all else that is read of it is
as before. -/
structure IsRewritten (field? : Option ContainerField) (container next : Json) : Prop where
  written : ∀ f ∈ field?, ∀ suffix b, f.baselineFor? suffix = some b →
    ∀ requested, declaredAt next requested suffix =
      some (.string (toString b.settled.value ++ b.unit))
  kept : ∀ suffix, (∀ f ∈ field?, f.baselineFor? suffix = none) →
    ∀ requested, declaredAt next requested suffix = declaredAt container requested suffix

theorem cpuOf_settled {f : ContainerField} (hcpu : cpuOf container = .ok f.cpu)
    (h : IsRewritten (some f) container next) : cpuOf next = .ok f.settled.cpu := by
  cases hbaseline : f.cpuBaseline? with
  | none =>
    have hread := readDeclared_kept (h.kept "cpu" (by simp [f.baselineFor?_cpu, hbaseline]))
    have hsame : f.settled.cpu = f.cpu := by
      simp [ContainerField.settled, ContainerField.settledAmount, hbaseline]
    rw [cpuOf, hread, hsame]
    exact hcpu
  | some b =>
    obtain ⟨-, hunit⟩ := ContainerField.baselineOf?_eq_some hbaseline
    have hmem : b ∈ f.baselines := by simp [ContainerField.baselines_eq, hbaseline]
    have hpos := (ContainerField.baseline_cases hmem).1
    have hread := readDeclared_written (by rw [hunit]; exact Quantity.isUnit_milli) hpos
      (h.written f rfl "cpu" b (f.baselineFor?_cpu.trans hbaseline))
    have hvalue : b.settled.value = (clampInt32 b.value).toInt := rfl
    have hclamp := toInt_clampInt32 b.value
    have hmilli : clampInt64 b.settled.value = b.settled.value := by
      rw [clampInt64]
      omega
    rw [cpuOf, hread]
    show Except.ok (some (clampInt64 (b.settled.value * 1))) = _
    rw [Int.mul_one, hmilli]
    simp [ContainerField.settled, ContainerField.settledAmount, hbaseline]

theorem memoryOf_settled {f : ContainerField} {memory : Option (Int × MemoryUnit)}
    (hmemory : memoryOf container = .ok memory) (hamount : f.memory = memory.map Prod.fst)
    (hunit : f.unit = (memory.map Prod.snd).getD .mebibytes)
    (h : IsRewritten (some f) container next) :
    memoryOf next = .ok (f.settled.memory.map fun amount => (amount, f.unit)) := by
  cases hbaseline : f.memoryBaseline? with
  | none =>
    have hread := readDeclared_kept (h.kept "memory" (by simp [f.baselineFor?_memory, hbaseline]))
    have hsame : f.settled.memory.map (fun amount => (amount, f.unit)) = memory := by
      simp only [ContainerField.settled, ContainerField.settledAmount, hbaseline, hamount, hunit]
      cases memory <;> rfl
    rw [memoryOf, hread, hsame]
    exact hmemory
  | some b =>
    obtain ⟨-, hsuffix⟩ := ContainerField.baselineOf?_eq_some hbaseline
    have hmem : b ∈ f.baselines := by simp [ContainerField.baselines_eq, hbaseline]
    have hpos := (ContainerField.baseline_cases hmem).1
    have hread := readDeclared_written (by rw [hsuffix]; exact Quantity.isUnit_memory f.unit) hpos
      (h.written f rfl "memory" b (f.baselineFor?_memory.trans hbaseline))
    -- The amount comes from a quantity that was read, or it is the one that containers start with.
    have horigin : ∃ q, memoryIn q = .ok (b.value, f.unit) := by
      cases memory with
      | none =>
        have hvalue : b.value = 128 := by
          simp only [ContainerField.memoryBaseline?, hamount, Option.map_none,
            ContainerField.baselineOf?] at hbaseline
          split at hbaseline
          · obtain rfl := Option.some.inj hbaseline
            rfl
          · cases hbaseline
        rw [hvalue, hunit]
        exact ⟨⟨"", 134217728000⟩, by decide⟩
      | some amount =>
        have hvalue : b.value = amount.1 := by
          simp only [ContainerField.memoryBaseline?, hamount, Option.map_some,
            ContainerField.baselineOf?] at hbaseline
          split at hbaseline
          · obtain rfl := Option.some.inj hbaseline
            rfl
          · cases hbaseline
        obtain ⟨quantity?, -, hquantity⟩ := bind_eq_ok.mp hmemory
        cases quantity? with
        | none => cases hquantity
        | some q =>
          have hquantity : (memoryIn q).map some = .ok (some amount) := hquantity
          obtain ⟨read, hread, heq⟩ := map_eq_ok.mp hquantity
          obtain rfl : read = amount := Option.some.inj heq
          rw [hvalue, hunit]
          exact ⟨q, hread⟩
    obtain ⟨q, hq⟩ := horigin
    have hagain : memoryIn ⟨toString b.settled.value ++ b.unit,
        b.settled.value * f.unit.thousandths⟩ = .ok (b.settled.value, f.unit) :=
      Quantity.memoryIn_whole hq hpos _
    have hsettled : f.settled.memory = some b.settled.value := by
      simp [ContainerField.settled, ContainerField.settledAmount, hbaseline]
    rw [memoryOf, hread, hsettled]
    show (memoryIn _).map some = _
    rw [hagain]
    rfl

/-- The settled field is that of a container which declares the settled amounts. -/
theorem fieldOf_settled {f : ContainerField}
    (hsynthesized : f.synthesized = (f.cpu.isNone && f.memory.isNone))
    (hunit : f.memory = none → f.unit = .mebibytes) :
    s.fieldOf f.target f.path f.settled.cpu (f.settled.memory.map fun amount => (amount, f.unit)) =
      some f.settled := by
  have hkept : ∀ baseline amount, Option.isSome amount →
      (ContainerField.settledAmount baseline amount).isSome := by
    intro baseline amount hamount
    simp [ContainerField.settledAmount, hamount]
  have hdeclared : (f.settled.cpu.isNone && f.settled.memory.isNone) = false := by
    rw [Bool.and_eq_false_iff, Option.isNone_eq_false_iff, Option.isNone_eq_false_iff]
    cases hcpu : f.cpu with
    | some cpu => exact .inl (hkept _ _ (by rw [hcpu]; rfl))
    | none =>
      cases hmemory : f.memory with
      | some memory => exact .inr (hkept _ _ (by rw [hmemory]; rfl))
      | none =>
        left
        have hnew : f.synthesized = true := by rw [hsynthesized, hcpu, hmemory]; rfl
        simp [ContainerField.settled, ContainerField.settledAmount, ContainerField.cpuBaseline?,
          hcpu, hnew, ContainerField.baselineOf?]
  have hsame : ((f.settled.memory.map fun amount => (amount, f.unit)).map Prod.snd).getD
      .mebibytes = f.unit := by
    cases hmemory : f.settled.memory with
    | some memory => rfl
    | none =>
      refine (hunit ?_).symm
      cases hold : f.memory with
      | none => rfl
      | some memory =>
        have hsome := hkept f.memoryBaseline? f.memory (by rw [hold]; rfl)
        rw [show ContainerField.settledAmount f.memoryBaseline? f.memory = none from hmemory] at hsome
        cases hsome
  have hamount : (f.settled.memory.map fun amount => (amount, f.unit)).map Prod.fst =
      f.settled.memory := by
    cases f.settled.memory <;> rfl
  have hnone : (f.settled.memory.map fun amount => (amount, f.unit)).isNone =
      f.settled.memory.isNone := by
    cases f.settled.memory <;> rfl
  rw [fieldOf, hnone, hdeclared, hsame, hamount]
  rfl

/-- A container that the baselines have been written to is read as the settled field. -/
theorem fieldAt_settled {field? : Option ContainerField}
    (h : s.fieldAt target path container = .ok field?) (hnext : IsRewritten field? container next) :
    s.fieldAt target path next = .ok (field?.map ContainerField.settled) := by
  obtain ⟨cpu, memory, hcpu, hmemory, hfield⟩ := fieldAt_eq_ok.mp h
  cases field? with
  | none =>
    refine fieldAt_eq_ok.mpr ⟨cpu, memory, ?_, ?_, hfield⟩
    · rw [cpuOf, readDeclared_kept (hnext.kept "cpu" (by simp))]
      exact hcpu
    · rw [memoryOf, readDeclared_kept (hnext.kept "memory" (by simp))]
      exact hmemory
  | some f =>
    unfold fieldOf at hfield
    split at hfield
    · cases hfield
    · next hdeclared =>
      obtain rfl := Option.some.inj hfield
      refine fieldAt_eq_ok.mpr ⟨_, _, cpuOf_settled hcpu hnext,
        memoryOf_settled hmemory rfl rfl hnext, (fieldOf_settled ?_ ?_).symm⟩
      · cases memory <;> rfl
      · intro hnone
        cases memory with
        | none => rfl
        | some amount => cases hnone

end ContainerSelector

/-! ### Variables -/

namespace VariableSelector

variable {s : VariableSelector} {target : ObjectReference} {path : FieldPath}
  {container next : Json}

theorem entry?_eq_reach? (s : VariableSelector) (container : Json) :
    s.entry? container = container.reach? [.member "env", .named s.name] := by
  show (container.get? "env").bind _ = (container.get? "env").bind _
  congr 1
  funext env
  show env.asArray?.bind (fun items => findNamed? items s.name) =
    (env.asArray?.bind (findNamed? · s.name)).bind some
  rw [Option.bind_fun_some]

/-- A container whose entry for the variable is as before has the same field. -/
theorem fieldAt_kept {field? : Option VariableField}
    (h : s.fieldAt target path container = .ok field?)
    (hkept : next.reach? [.member "env", .named s.name] =
      container.reach? [.member "env", .named s.name]) :
    s.fieldAt target path next = .ok field? := by
  rw [fieldAt, entry?_eq_reach?, hkept, ← entry?_eq_reach?]
  exact h

/-- A container that the baseline has been written to is read as the settled field. -/
theorem fieldAt_settled {f : VariableField} {text : String}
    (h : s.fieldAt target path container = .ok (some f)) (hsettled : f.settled.value = some text)
    (hwritten : next.reach? [.member "env", .named s.name, .member "value"] =
      some (.string text)) :
    s.fieldAt target path next = .ok (some f.settled) := by
  obtain ⟨htarget, hpath, hname, hvalues⟩ := fieldAt_eq_some h
  have hentry : ∃ entry, s.entry? next = some entry ∧ entry.get? "value" = some (.string text) := by
    rw [entry?_eq_reach?]
    have happend := reach?_append next [.member "env", .named s.name] [.member "value"]
    rw [show [Step.member "env", .named s.name] ++ [.member "value"] =
      [.member "env", .named s.name, .member "value"] from rfl, hwritten] at happend
    obtain ⟨entry, hentry, hvalue⟩ := Option.bind_eq_some_iff.mp happend.symm
    refine ⟨entry, hentry, ?_⟩
    have hvalue : (entry.get? "value").bind some = some (.string text) := hvalue
    rwa [Option.bind_fun_some] at hvalue
  obtain ⟨entry, hentry, hvalue⟩ := hentry
  have hfield : f.settled = ⟨target, path, s.name, some text, s.values⟩ := by
    rw [← hsettled, ← htarget, ← hpath, ← hname, ← hvalues]
    rfl
  simp only [fieldAt, hentry, hvalue, hfield]

end VariableSelector

end WorkloadTuning
