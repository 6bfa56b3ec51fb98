import WorkloadTuning.Proofs.Json.BriefNumbers
import WorkloadTuning.Proofs.Json.Records
import WorkloadTuning.Proofs.Timestamp
import WorkloadTuning.Service.Trial

/-! What the service is sent of a trial, and what is read of that. A number that is not finite has
no place in a document: it is written as `null`, and the report that holds it is read as none. A
report of finite numbers is read as it is, from the document, and from its text if the numbers have
few digits. -/

namespace WorkloadTuning

open Record

/-! ### Numbers -/

theorem Binary64.roundTrips {x : Binary64} (h : x.isFinite = true) : RoundTrips x := by
  cases x with
  | finite negative m e => rfl
  | _ => cases h

theorem Binary64.ofJson_toJson_of_not_finite {x : Binary64} (h : x.isFinite = false) :
    ofJson (α := Binary64) (toJson x) = .error .malformed := by
  cases x with
  | finite negative m e => cases h
  | _ => rfl

theorem Binary64.isReadable {x : Binary64} (h : x.isFinite = true → x.IsBrief) :
    (toJson x).IsReadable := by
  cases hx : x.isFinite with
  | true =>
    have hjson : toJson x = .number (.float x) := if_pos hx
    rw [hjson]
    exact Number.float_isRead (h hx)
  | false =>
    have hjson : toJson x = .null := if_neg (by rw [hx]; decide)
    rw [hjson]
    trivial

theorem Binary64.same_self {x : Binary64} (h : x.isFinite = true) : x.same x = true := by
  cases x with
  | finite negative m e => simp [same]
  | _ => cases h

theorem Binary64.same_zero {x : Binary64} (h : x.isZero = true) : x.same .zero = true := by
  cases x with
  | finite negative m e =>
    have hm : m = 0 := by simpa [isZero] using h
    simp [same, isZero, zero, hm]
  | _ => cases h

namespace Service

/-! ### Values -/

namespace MetricValue

/-- The numbers of the value can be written. -/
structure IsFinite (v : MetricValue) : Prop where
  value : v.value.isFinite = true
  error : v.error.isFinite = true

instance (v : MetricValue) : Decidable v.IsFinite :=
  decidable_of_iff (v.value.isFinite = true ∧ v.error.isFinite = true)
    ⟨fun h => ⟨h.1, h.2⟩, fun h => ⟨h.value, h.error⟩⟩

/-- The numbers of the value that can be written have few digits. -/
structure IsBrief (v : MetricValue) : Prop where
  value : v.value.isFinite = true → v.value.IsBrief
  error : v.error.isFinite = true → v.error.IsBrief

/-- One name and equal numbers. -/
structure Same (v w : MetricValue) : Prop where
  name : v.metricName = w.metricName
  value : v.value.same w.value = true
  error : v.error.same w.error = true

/-- The value as it is read: a zero error is not written. -/
def settled (v : MetricValue) : MetricValue :=
  if v.error.isZero then { v with error := .zero } else v

variable {v : MetricValue}

theorem reads_name (v : MetricValue) :
    Reads take (member "metricName" v.metricName) {} { metricName := v.metricName } :=
  reads_member rfl

theorem reads_value (h : v.value.isFinite = true) :
    Reads take (member "metricName" v.metricName ++ member "value" v.value) {}
      { metricName := v.metricName, value := v.value } := by
  have hvalue : ofJson (toJson v.value) = .ok v.value := Binary64.roundTrips h
  refine v.reads_name.append (reads_member ?_)
  simp only [take, hvalue]
  rfl

theorem ofJson_toJson (h : v.IsFinite) : ofJson (toJson v) = .ok v.settled := by
  have herror : ofJson (toJson v.error) = .ok v.error := Binary64.roundTrips h.error
  refine readMembers_eq_ok ((reads_value h.value).append ?_) (by simp [member, Members.get?])
  unfold settled
  cases hzero : v.error.isZero with
  | true => rfl
  | false =>
    refine reads_member ?_
    simp only [take, herror]
    rfl

theorem ofJson_toJson_of_not_finite (h : ¬v.IsFinite) :
    ofJson (α := MetricValue) (toJson v) = .error .malformed := by
  refine readMembers_eq_error ?_
  cases hvalue : v.value.isFinite with
  | false =>
    refine (v.reads_name.append_fails (fails_member ?_)).append _
    simp only [take, Binary64.ofJson_toJson_of_not_finite hvalue]
    rfl
  | true =>
    have herror : v.error.isFinite = false :=
      Bool.eq_false_iff.mpr fun herror => h ⟨hvalue, herror⟩
    have hzero : v.error.isZero = false := by
      cases hcase : v.error <;> simp_all [Binary64.isFinite, Binary64.isZero]
    refine (reads_value hvalue).append_fails ?_
    rw [hzero]
    refine fails_member ?_
    simp only [take, Binary64.ofJson_toJson_of_not_finite herror]
    rfl

theorem isReadable (h : v.IsBrief) : (toJson v).IsReadable := by
  have hkeys : (member "metricName" v.metricName ++ member "value" v.value ++
      memberUnless v.error.isZero "error" v.error).keys.Sublist
        ["metricName", "value", "error"] := by
    rw [Members.keys, List.map_append]
    exact (List.Sublist.refl ["metricName", "value"]).append (keys_memberUnless _ _ _)
  refine ⟨hkeys.nodup (by decide), Json.isReadableMembers_iff.mpr fun m hm => ?_⟩
  rcases List.mem_append.mp hm with hm | hm
  · have hcases : m = ("metricName", toJson v.metricName) ∨ m = ("value", toJson v.value) := by
      simpa [member] using hm
    rcases hcases with rfl | rfl
    · exact trivial
    · exact Binary64.isReadable h.value
  · exact isReadable_memberUnless (Binary64.isReadable h.error) m hm

theorem same_settled (h : v.IsFinite) : v.Same v.settled := by
  have hvalue := Binary64.same_self h.value
  unfold settled
  split
  · next hzero => exact ⟨rfl, hvalue, Binary64.same_zero hzero⟩
  · exact ⟨rfl, hvalue, Binary64.same_self h.error⟩

end MetricValue

/-! ### Reports -/

namespace Report

/-- Every number of the report can be written. -/
def IsFinite (r : Report) : Prop :=
  ∀ v ∈ r.values, v.IsFinite

/-- Every number of the report that can be written has few digits. -/
def IsBrief (r : Report) : Prop :=
  ∀ v ∈ r.values, v.IsBrief

/-- The times of the report, if it has any, are such. -/
structure IsTimed (r : Report) : Prop where
  start : ∀ t ∈ r.startTime, t.IsProper
  completion : ∀ t ∈ r.completionTime, t.IsProper

/-- The reports agree in all they say, numbers as such. -/
structure Same (r s : Report) : Prop where
  startTime : r.startTime = s.startTime
  completionTime : r.completionTime = s.completionTime
  failed : r.failed = s.failed
  failureReason : r.failureReason = s.failureReason
  failureMessage : r.failureMessage = s.failureMessage
  values : List.Forall₂ MetricValue.Same r.values s.values

variable {r : Report}

/-- What stands in front of the values. -/
def leading (r : Report) : Members :=
  optionMember "startTime" r.startTime ++ optionMember "completionTime" r.completionTime ++
    memberUnless (!r.failed) "failed" r.failed ++ textMember "failureReason" r.failureReason ++
    textMember "failureMessage" r.failureMessage

theorem reads_leading (h : r.IsTimed) : Reads take r.leading {} { r with values := [] } := by
  have hstart (s : Report) (hs : s.startTime = none) :
      Reads take (optionMember "startTime" r.startTime) s { s with startTime := r.startTime } := by
    have hread : ofJson (toJson r.startTime) = .ok r.startTime :=
      Timestamp.option_roundTrips h.start
    refine reads_memberUnless (fun hnone => ?_) ?_
    · rw [Option.isNone_iff_eq_none.mp hnone, ← hs]
    · simp only [take, hread]
      rfl
  have hcompletion (s : Report) (hs : s.completionTime = none) :
      Reads take (optionMember "completionTime" r.completionTime) s
        { s with completionTime := r.completionTime } := by
    have hread : ofJson (toJson r.completionTime) = .ok r.completionTime :=
      Timestamp.option_roundTrips h.completion
    refine reads_memberUnless (fun hnone => ?_) ?_
    · rw [Option.isNone_iff_eq_none.mp hnone, ← hs]
    · simp only [take, hread]
      rfl
  have hfailed (s : Report) (hs : s.failed = false) :
      Reads take (memberUnless (!r.failed) "failed" r.failed) s { s with failed := r.failed } := by
    refine reads_memberUnless (fun hnot => ?_) rfl
    rw [(Bool.not_eq_true' r.failed).mp hnot, ← hs]
  have hreason (s : Report) (hs : s.failureReason = "") :
      Reads take (textMember "failureReason" r.failureReason) s
        { s with failureReason := r.failureReason } := by
    refine reads_memberUnless (fun hempty => ?_) rfl
    rw [String.isEmpty_iff.mp hempty, ← hs]
  have hmessage (s : Report) (hs : s.failureMessage = "") :
      Reads take (textMember "failureMessage" r.failureMessage) s
        { s with failureMessage := r.failureMessage } := by
    refine reads_memberUnless (fun hempty => ?_) rfl
    rw [String.isEmpty_iff.mp hempty, ← hs]
  exact ((((hstart {} rfl).append (hcompletion _ rfl)).append (hfailed _ rfl)).append
    (hreason _ rfl)).append (hmessage _ rfl)

theorem ofJson_toJson (htimed : r.IsTimed) (h : r.IsFinite) :
    ofJson (toJson r) = .ok { r with values := r.values.map MetricValue.settled } := by
  have hvalues : ofJson (toJson r.values) = .ok (r.values.map MetricValue.settled) := by
    refine bind_eq_ok.mpr ⟨r.values.map toJson, rfl, mapM_eq_ok.mpr ?_⟩
    rw [List.forall₂_map_left_iff, List.forall₂_map_right_iff, List.forall₂_same]
    exact fun v hv => MetricValue.ofJson_toJson (h v hv)
  have hread : Reads take (r.leading ++ listMember "values" r.values) {}
      { r with values := r.values.map MetricValue.settled } := by
    refine (reads_leading htimed).append (reads_memberUnless (fun hempty => ?_) ?_)
    · rw [List.isEmpty_iff.mp hempty]
      rfl
    · simp only [take, hvalues]
      rfl
  exact readMembers_eq_ok hread (by simp)

theorem ofJson_toJson_of_not_finite (htimed : r.IsTimed) (h : ¬r.IsFinite) :
    ofJson (α := Report) (toJson r) = .error .malformed := by
  obtain ⟨v, hv, hfails⟩ : ∃ v ∈ r.values, ¬v.IsFinite := by
    simpa [IsFinite] using h
  have hvalues : ofJson (α := List MetricValue) (toJson r.values) = .error .malformed := by
    refine bind_eq_error.mpr (.inr ⟨r.values.map toJson, rfl, ?_⟩)
    cases hall : (r.values.map toJson).mapM (ofJson (α := MetricValue)) with
    | ok values =>
      obtain ⟨w, -, hw⟩ := exists_right_of_mem (mapM_eq_ok.mp hall) (List.mem_map_of_mem hv)
      rw [MetricValue.ofJson_toJson_of_not_finite hfails] at hw
      cases hw
    | error e =>
      obtain ⟨json, hjson, he⟩ := exists_of_mapM_eq_error hall
      obtain ⟨w, -, rfl⟩ := List.mem_map.mp hjson
      by_cases hw : w.IsFinite
      · rw [MetricValue.ofJson_toJson hw] at he
        cases he
      · rw [MetricValue.ofJson_toJson_of_not_finite hw] at he
        exact congrArg Except.error (Except.error.inj he).symm
  refine readMembers_eq_error ((reads_leading htimed).append_fails ?_)
  have hsome : r.values.isEmpty = false := by
    simpa using List.ne_nil_of_mem hv
  rw [listMember, hsome]
  refine fails_member ?_
  simp only [take, hvalues]
  rfl

theorem isReadable (h : r.IsBrief) : (toJson r).IsReadable := by
  have htime (o : Option Timestamp) : (toJson o).IsReadable := by
    cases o <;> trivial
  have hflag (b : Bool) : (toJson b).IsReadable := trivial
  have htext (text : String) : (toJson text).IsReadable := trivial
  have hvalues : (toJson r.values).IsReadable := by
    refine Json.isReadableItems_iff.mpr fun item hitem => ?_
    obtain ⟨v, hv, rfl⟩ := List.mem_map.mp hitem
    exact MetricValue.isReadable (h v hv)
  have hkeys : (r.leading ++ listMember "values" r.values).keys.Sublist fields := by
    simp only [leading, Members.keys, List.map_append]
    exact (((((keys_memberUnless _ _ _).append (keys_memberUnless _ _ _)).append
      (keys_memberUnless _ _ _)).append (keys_memberUnless _ _ _)).append
      (keys_memberUnless _ _ _)).append (keys_memberUnless _ _ _)
  refine ⟨hkeys.nodup (by decide), Json.isReadableMembers_iff.mpr fun m hm => ?_⟩
  simp only [List.mem_append] at hm
  rcases hm with ((((hm | hm) | hm) | hm) | hm) | hm
  · exact isReadable_memberUnless (htime _) m hm
  · exact isReadable_memberUnless (htime _) m hm
  · exact isReadable_memberUnless (hflag _) m hm
  · exact isReadable_memberUnless (htext _) m hm
  · exact isReadable_memberUnless (htext _) m hm
  · exact isReadable_memberUnless hvalues m hm

theorem same_settled (h : r.IsFinite) :
    r.Same { r with values := r.values.map MetricValue.settled } := by
  refine ⟨rfl, rfl, rfl, rfl, rfl, ?_⟩
  rw [List.forall₂_map_right_iff, List.forall₂_same]
  exact fun v hv => MetricValue.same_settled (h v hv)

end Report

end Service

/-! ### Trials -/

namespace Trial

variable {t : Trial}

theorem report_of_failure {failure : Condition TrialAspect} (h : t.failure? = some failure) :
    t.report.failed = true ∧ t.report.values = [] := by
  unfold report
  rw [h]
  exact ⟨rfl, rfl⟩

theorem report_of_no_failure (h : t.failure? = none) :
    t.report.failed = false ∧ t.report.failureReason = "" ∧ t.report.failureMessage = "" ∧
      t.report.values = t.spec.values.filterMap TrialValue.toService? := by
  unfold report
  rw [h]
  exact ⟨rfl, rfl, rfl, rfl⟩

theorem report_times (t : Trial) :
    t.report.startTime = t.status.startTime ∧
      t.report.completionTime = t.status.completionTime := by
  unfold report
  cases t.failure? <;> exact ⟨rfl, rfl⟩

theorem report_isFinite_iff (t : Trial) :
    t.report.IsFinite ↔ t.report.failed = true ∨
      ∀ v ∈ t.spec.values, ∀ m, v.toService? = some m → m.IsFinite := by
  cases hfailure : t.failure? with
  | some failure =>
    obtain ⟨hfailed, hvalues⟩ := report_of_failure hfailure
    rw [Service.Report.IsFinite, hvalues, hfailed]
    simp
  | none =>
    obtain ⟨hfailed, -, -, hvalues⟩ := report_of_no_failure hfailure
    rw [Service.Report.IsFinite, hvalues, hfailed]
    simp only [List.mem_filterMap, Bool.false_eq_true, false_or]
    constructor
    · intro h v hv m hm
      exact h m ⟨v, hv, hm⟩
    · rintro h m ⟨v, hv, hm⟩
      exact h v hv m hm

/-- A trial reports its failure or its values, never both. What it reports is read as it is if all
its numbers are finite, so if each text that is read as a number is read as a finite one, and is
read as no report at all otherwise. The text of the report says the same as the document if the
numbers have few digits. -/
theorem report_survives (hstart : ∀ time ∈ t.status.startTime, time.IsProper)
    (hcompletion : ∀ time ∈ t.status.completionTime, time.IsProper) :
    (t.report.failed = true → t.report.values = []) ∧
    (t.report.failed = false → t.report.failureReason = "" ∧ t.report.failureMessage = "") ∧
    (t.report.IsFinite ↔ t.report.failed = true ∨
      ∀ v ∈ t.spec.values, ∀ m, v.toService? = some m → m.IsFinite) ∧
    (t.report.IsFinite → ∃ read, ofJson (toJson t.report) = .ok read ∧ t.report.Same read) ∧
    (¬t.report.IsFinite →
      ofJson (α := Service.Report) (toJson t.report) = .error .malformed) ∧
    (t.report.IsBrief →
      ofText (α := Service.Report) (toText t.report) = ofJson (toJson t.report)) := by
  have htimed : t.report.IsTimed := by
    obtain ⟨hs, hc⟩ := t.report_times
    exact ⟨by rwa [hs], by rwa [hc]⟩
  refine ⟨fun hfailed => ?_, fun hfailed => ?_, t.report_isFinite_iff,
    fun h => ⟨_, Service.Report.ofJson_toJson htimed h, Service.Report.same_settled h⟩,
    Service.Report.ofJson_toJson_of_not_finite htimed,
    fun h => Record.ofText_toText (Service.Report.isReadable h)⟩
  · cases hfailure : t.failure? with
    | some failure => exact (report_of_failure hfailure).2
    | none => rw [(report_of_no_failure hfailure).1] at hfailed; cases hfailed
  · cases hfailure : t.failure? with
    | some failure => rw [(report_of_failure hfailure).1] at hfailed; cases hfailed
    | none =>
      obtain ⟨-, hreason, hmessage, -⟩ := report_of_no_failure hfailure
      exact ⟨hreason, hmessage⟩

/-- A finished trial with two measures, one of them with an error, and a remark. -/
def measuredTrial : Trial :=
  { metadata := { name := "web-001" }
    spec := {
      values := [
        { name := "cost", value := "12.5e1", error := "-0" },
        { name := "latency", value := "0.0375", error := "0.002" },
        { name := "remark", value := "none" }] }
    status := { startTime := some ⟨2024, 2, 29, 23, 59, 60, 250000000⟩ } }

theorem measuredTrial_survives :
    (∀ time ∈ measuredTrial.status.startTime, time.IsProper) ∧
      (∀ time ∈ measuredTrial.status.completionTime, time.IsProper) ∧
      measuredTrial.report.IsFinite ∧ measuredTrial.report.IsBrief ∧
      measuredTrial.report.values.map Service.MetricValue.metricName = ["cost", "latency"] ∧
      ∃ read, ofText (toText measuredTrial.report) = .ok read ∧ measuredTrial.report.Same read := by
  have hstart : ∀ time ∈ measuredTrial.status.startTime, time.IsProper := by
    rintro time ⟨⟩
    exact ⟨by decide, by decide⟩
  have hcompletion : ∀ time ∈ measuredTrial.status.completionTime, time.IsProper := by
    rintro time ⟨⟩
  obtain ⟨-, -, -, hread, -, htext⟩ := report_survives hstart hcompletion
  have hvalues : measuredTrial.report.values =
      [{ metricName := "cost", value := .ofDecimal false 125 0, error := .ofDecimal true 0 0 },
       { metricName := "latency", value := .ofDecimal false 375 (-4)
         error := .ofDecimal false 2 (-3) }] := by
    decide +kernel
  have hfinite : measuredTrial.report.IsFinite := by
    rw [Service.Report.IsFinite, hvalues]
    decide +kernel
  have hbrief : measuredTrial.report.IsBrief := by
    rw [Service.Report.IsBrief, hvalues]
    intro v hv
    rcases List.mem_pair.mp hv with rfl | rfl
    · exact ⟨fun _ => ⟨false, 125, 0, by decide, by decide, by decide, rfl⟩,
        fun _ => ⟨true, 0, 0, by decide, by decide, by decide, rfl⟩⟩
    · exact ⟨fun _ => ⟨false, 375, -4, by decide, by decide, by decide, rfl⟩,
        fun _ => ⟨false, 2, -3, by decide, by decide, by decide, rfl⟩⟩
  obtain ⟨read, hok, hsame⟩ := hread hfinite
  exact ⟨hstart, hcompletion, hfinite, hbrief, by rw [hvalues]; rfl, read,
    (htext hbrief).trans hok, hsame⟩

/-- A trial with a measure that is a number by its text only. -/
def unboundedTrial : Trial :=
  { metadata := { name := "web-001" }
    spec := { values := [{ name := "cost", value := "NaN" }] } }

theorem unboundedTrial_unreadable :
    unboundedTrial.report.failed = false ∧
      unboundedTrial.report.values = [{ metricName := "cost", value := .nan }] ∧
      toText unboundedTrial.report =
        "\x7b\"values\":[\x7b\"metricName\":\"cost\",\"value\":null\x7d]\x7d" ∧
      ofText (α := Service.Report) (toText unboundedTrial.report) = .error .malformed := by
  refine ⟨rfl, by decide +kernel, by decide +kernel, by decide +kernel⟩

/-- A number of sixteen digits that is written as it is, and read as another one. -/
example :
    let t : Trial := { spec := { values := [{ name := "cost", value := "915.9011963818185" }] } }
    let texts (r : Service.Report) := r.values.map fun v => v.value.toText
    texts t.report = ["915.9011963818185"] ∧
      (ofText (toText t.report)).map texts = .ok ["915.9011963818184"] := by
  decide +kernel

end Trial

end WorkloadTuning
