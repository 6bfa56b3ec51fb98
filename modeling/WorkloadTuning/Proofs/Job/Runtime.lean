import WorkloadTuning.Proofs.Duration.Range
import WorkloadTuning.Proofs.Job.Fields
import WorkloadTuning.Proofs.Job.Runnable

/-! Durations in the job of a trial. Only the container that is put into a job without one sleeps,
for the runtime and the offset of its start together. Each of them is a duration, but their sum may
be too long for one; then there is no job. -/

namespace WorkloadTuning

open Record

/-! ### Durations of records -/

theorem Duration.lt_limit_of_ofJson {json : Json} {d : Duration} (h : ofJson json = .ok d) :
    d.nanoseconds < Duration.limit := by
  obtain ⟨text, -, hparse⟩ := bind_eq_ok.mp h
  exact Duration.lt_limit_of_parse (mapError_eq_ok.mp hparse)

/-- The durations that are given are ones that there are. -/
structure TrialSpec.IsInRange (s : TrialSpec) : Prop where
  approximateRuntime : ∀ d ∈ s.approximateRuntime, d.nanoseconds < Duration.limit
  startTimeOffset : ∀ d ∈ s.startTimeOffset, d.nanoseconds < Duration.limit

theorem TrialSpec.isInRange_default : ({} : TrialSpec).IsInRange :=
  ⟨by simp, by simp⟩

theorem TrialSpec.isInRange_of_ofJson {json : Json} {s : TrialSpec} (h : ofJson json = .ok s) :
    s.IsInRange := by
  obtain ⟨members, hreads⟩ := exists_reads_of_read h
  exact ⟨approximateRuntime_isField.forall_of_reads
      (forall_mem_option_of_ofJson Duration.lt_limit_of_ofJson) (by simp) hreads,
    startTimeOffset_isField.forall_of_reads
      (forall_mem_option_of_ofJson Duration.lt_limit_of_ofJson) (by simp) hreads⟩

namespace Trial

variable {t : Trial} {json : Json}

theorem isInRange_of_ofJson (h : ofJson json = .ok t) : t.spec.IsInRange := by
  obtain ⟨members, hreads⟩ := exists_reads_of_read h
  exact spec_isField.forall_of_reads TrialSpec.isInRange_of_ofJson TrialSpec.isInRange_default
    hreads

/-! ### The runtime -/

/-- How long the default container sleeps after its start. -/
def baseRuntime (t : Trial) : Duration :=
  (t.spec.approximateRuntime.filter fun d => !d.isZero).getD defaultRuntime

theorem runtime?_eq_none_iff : t.runtime? = none ↔ ∃ offset, t.spec.startTimeOffset = some offset ∧
    Duration.limit ≤ t.baseRuntime.nanoseconds + offset.nanoseconds := by
  unfold runtime? baseRuntime
  cases t.spec.startTimeOffset with
  | none => simp
  | some offset => simp [Duration.add?, Duration.ofNanoseconds?]

/-- The job of the trial needs a container of its own, and that sleeps too long. -/
def SleepsTooLong (t : Trial) : Prop :=
  t.jobTemplate.spec.template.spec.containers = [] ∧ ∃ offset,
    t.spec.startTimeOffset = some offset ∧
      Duration.limit ≤ t.baseRuntime.nanoseconds + offset.nanoseconds

/-- A job is made of every trial but those. -/
theorem buildJob_outcome (t : Trial) : t.SleepsTooLong ∧ t.buildJob = .error .outOfRange ∨
    ¬t.SleepsTooLong ∧ ∃ built, t.buildJob = .ok built := by
  rcases t.unpatchedJob_ends with ⟨hnone, hruntime, hfails⟩ | ⟨job, hjob, -⟩
  · exact .inl ⟨⟨hnone, runtime?_eq_none_iff.mp hruntime⟩, bind_eq_error.mpr (.inl hfails)⟩
  · obtain ⟨built, hbuilt, -⟩ := buildJob_ends hjob
    refine .inr ⟨?_, built, hbuilt⟩
    rintro ⟨hnone, hlong⟩
    have hfails : t.unpatchedJob = .error .outOfRange := by
      rw [unpatchedJob, podSpec, hnone, jobContainers, runtime?_eq_none_iff.mpr hlong]
      rfl
    rw [hjob] at hfails
    cases hfails

/-! ### Texts and trials -/

/-- A text is read as what it writes, is refused if it is not written as a duration, and is out of
range if the sum of its terms in double precision reaches `2 ^ 64` seconds, which it does just about
where the exact sum does. A trial that is read has durations below that, and it has a job unless
the default container would sleep for a sum that reaches it. -/
theorem durations_end (text : String) (json : Json) :
    (∀ outcome, Duration.parse text = outcome ↔ Duration.Reads text outcome) ∧
      (∀ terms, Duration.Spells text terms →
        (Duration.written terms + 4096 * (terms.length + 4) ≤ 2 ^ 64 →
          ∃ d, Duration.parse text = .ok d) ∧
        (terms.length + 4 ≤ 2 ^ 50 → 2 ^ 64 + 8192 * (terms.length + 4) ≤ Duration.written terms →
          Duration.parse text = .error .outOfRange)) ∧
      ∀ t : Trial, ofJson json = .ok t → t.spec.IsInRange ∧
        (t.SleepsTooLong ∧ t.buildJob = .error .outOfRange ∨
          ¬t.SleepsTooLong ∧ ∃ built, t.buildJob = .ok built) := by
  refine ⟨fun outcome => Duration.parse_eq_iff, fun terms hspells => ⟨fun hshort => ?_,
    fun hfew hlong => ?_⟩, fun t h => ⟨isInRange_of_ofJson h, t.buildJob_outcome⟩⟩
  · obtain ⟨q, hq, hlt⟩ := Duration.exists_lt_of_written hshort
    obtain ⟨d, hd, -⟩ := Duration.parse_of_lt hspells hq hlt
    exact ⟨d, hd⟩
  · exact Duration.parse_of_isTooLong hspells (Duration.isTooLong_of_written hfew hlong)

/-- A trial without a template, as a document. -/
def document (runtime offset : String) : Json :=
  .object [("apiVersion", .string Vocabulary.apiVersion), ("kind", .string "Trial"),
    ("metadata", .object [("name", .string "web-001")]),
    ("spec", .object [("approximateRuntime", .string runtime),
      ("startTimeOffset", .string offset)])]

def timed (runtime offset : Nat) : Trial :=
  { metadata := { name := "web-001" }
    spec := { approximateRuntime := some (.ofSeconds runtime)
              startTimeOffset := some (.ofSeconds offset) } }

theorem short_durations_end :
    (∃ d, Duration.parse "1h30m" = .ok d) ∧ Duration.Reads "1h30m" (.ok (.ofSeconds 5400)) ∧
      ofJson (document "1h30m" "30s") = .ok (timed 5400 30) ∧
      (∃ built, (timed 5400 30).buildJob = .ok built) ∧
      Duration.parse "18446744073709592576s" = .error .outOfRange := by
  obtain ⟨hreads, hsums, htrial⟩ := durations_end "1h30m" (document "1h30m" "30s")
  have hshort : Duration.Spells "1h30m" [⟨.ofNat 1, .h⟩, ⟨.ofNat 30, .m⟩] :=
    ⟨by decide, List.cons_ne_nil _ _⟩
  have hshortSum : Duration.written [⟨.ofNat 1, .h⟩, ⟨.ofNat 30, .m⟩] = 5400 := by
    norm_num [Duration.written, Duration.Term.written, Duration.Numeral.written_ofNat,
      Duration.TimeUnit.seconds, Duration.TimeUnit.fraction]
  have hlong : Duration.Spells "18446744073709592576s" [⟨.ofNat 18446744073709592576, .s⟩] :=
    ⟨by decide, List.cons_ne_nil _ _⟩
  have hlongSum : Duration.written [⟨.ofNat 18446744073709592576, .s⟩] = 18446744073709592576 := by
    norm_num [Duration.written, Duration.Term.written, Duration.Numeral.written_ofNat,
      Duration.TimeUnit.seconds, Duration.TimeUnit.fraction]
  have hread : ofJson (document "1h30m" "30s") = .ok (timed 5400 30) := by decide +kernel
  have hsleeps : ¬(timed 5400 30).SleepsTooLong := by
    rintro ⟨-, offset, hoffset, hle⟩
    obtain rfl := Option.some.inj hoffset
    exact absurd hle (by decide)
  refine ⟨(hsums _ hshort).1 ?_, (hreads _).mp (by decide +kernel), hread,
    ((htrial _ hread).2.resolve_left fun hends => hsleeps hends.1).2,
    ((durations_end _ (document "1h30m" "30s")).2.1 _ hlong).2 (by norm_num) ?_⟩
  · rw [hshortSum]
    norm_num
  · rw [hlongSum]
    norm_num

/-- At the limit there is neither a duration nor a refusal, and two durations below it may leave a
trial without a job. -/
theorem long_durations_fail :
    Duration.parse "18446744073709551616s" = .error .outOfRange ∧
      (timed 18446744073709549568 2048).buildJob = .error .outOfRange ∧
      (¬∀ text, (∃ d, Duration.parse text = .ok d) ∨
        Duration.parse text = .error (.invalid text)) ∧
      ¬∀ (json : Json) (t : Trial), ofJson json = .ok t → ∃ built, t.buildJob = .ok built := by
  have hparse : Duration.parse "18446744073709551616s" = .error .outOfRange := by decide +kernel
  have hread : ofJson (document "18446744073709549568s" "2048s") =
      .ok (timed 18446744073709549568 2048) := by decide +kernel
  have hfails : (timed 18446744073709549568 2048).buildJob = .error .outOfRange := by
    have hsleeps : (timed 18446744073709549568 2048).SleepsTooLong :=
      ⟨rfl, .ofSeconds 2048, rfl, by decide⟩
    exact ((buildJob_outcome _).resolve_right fun hends => hends.1 hsleeps).2
  refine ⟨hparse, hfails, fun hall => ?_, fun hall => ?_⟩
  · rcases hall "18446744073709551616s" with ⟨d, hd⟩ | hinvalid
    · cases hparse.symm.trans hd
    · cases hparse.symm.trans hinvalid
  · obtain ⟨built, hbuilt⟩ := hall _ _ hread
    cases hfails.symm.trans hbuilt

end Trial

end WorkloadTuning
