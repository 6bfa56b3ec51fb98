import WorkloadTuning.Service.Basic
import WorkloadTuning.Text.Cut
import WorkloadTuning.Text.Integer
import WorkloadTuning.Trial.Basic

/-! How a trial takes over the values that the service suggests, and what it reports to the
service. -/

namespace WorkloadTuning

/-- The last part of a location. -/
def lastPathPart (url : String) : String :=
  let path := Text.dropEndWhile (· == '/') url.toList
  match Text.cutLast? '/' path with
  | some (_, last) => String.ofList last
  | none => String.ofList path

/-- The number in at least three places, its sign included, so that names with the numbers of
successive trials sort in their order. -/
def trialNumberText (number : Int) : String :=
  if number < 0 then "-" ++ Text.padded 2 number.natAbs
  else Text.padded 3 number.natAbs

/-- The name of the trial at a location of the service: its number there, or else the last part of
the location, after what generated names start with. -/
def trialName (generateName url : String) : String :=
  let last := lastPathPart url
  match (Text.readInt? last.toList).filter fitsInt64 with
  | some number => generateName ++ trialNumberText number
  | none => generateName ++ last

/-- Labels with an empty value are removed, the others set. -/
def Labels.updated (labels : Labels) (changes : Labels) : Labels :=
  changes.entries.foldl (fun labels (key, value) =>
    if value.isEmpty then labels.erase key else labels.insert key value) labels

namespace Trial

/-- The trial's name, made from its location at the service if it has none yet. -/
def nameFor (t : Trial) (url : String) : String :=
  let m := t.metadata
  if m.name.isEmpty && !m.generateName.isEmpty && !url.isEmpty then trialName m.generateName url
  else m.name

/-- Take over the suggested values and labels, and note where to report to. -/
def accept (t : Trial) (suggestion : Service.Suggestion) : Trial :=
  let m := t.metadata.annotate Vocabulary.reportTrialUrl suggestion.selfUrl
  let assignments := suggestion.assignments.map fun a =>
    { name := a.parameterName, value := a.value.toIntOrString : Assignment }
  let t := { t with
    metadata := { m with name := t.nameFor suggestion.selfUrl
                         labels := Labels.updated m.labels suggestion.labels }
    spec := { t.spec with assignments := t.spec.assignments ++ assignments } }
  let t := t.updateStatus
  { t with metadata := t.metadata.addFinalizer Vocabulary.finalizer }

end Trial

/-- A value as it is reported; a text that is no number is not, and an error that is no number
counts as zero. -/
def TrialValue.toService? (v : TrialValue) : Option Service.MetricValue :=
  (Binary64.read? v.value).map fun value =>
    { metricName := v.name, value, error := (Binary64.read? v.error).getD .zero }

/-- A failed trial reports its failure, any other its values. -/
def Trial.report (t : Trial) : Service.Report :=
  let times : Service.Report :=
    { startTime := t.status.startTime, completionTime := t.status.completionTime }
  match t.failure? with
  | some failure =>
    { times with failed := true, failureReason := failure.reason, failureMessage := failure.message }
  | none => { times with values := t.spec.values.filterMap TrialValue.toService? }

end WorkloadTuning
