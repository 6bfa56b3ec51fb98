import WorkloadTuning.Generation.Generator
import WorkloadTuning.Job.Build
import WorkloadTuning.Json.Reader
import WorkloadTuning.LockTable.Run
import WorkloadTuning.Patch.Application
import WorkloadTuning.Patch.Rendering
import WorkloadTuning.Proofs.Application.Spelling
import WorkloadTuning.Proofs.Condition
import WorkloadTuning.Proofs.FieldPath.Assignment
import WorkloadTuning.Proofs.FieldPath.Instances
import WorkloadTuning.Proofs.FieldPath.Notation
import WorkloadTuning.Proofs.Generation.Baseline
import WorkloadTuning.Proofs.Generation.Replicas
import WorkloadTuning.Proofs.Generation.ScanOrder
import WorkloadTuning.Proofs.Generation.Targets
import WorkloadTuning.Proofs.Job.Environment
import WorkloadTuning.Proofs.Job.Identity
import WorkloadTuning.Proofs.Job.Patching
import WorkloadTuning.Proofs.Job.Runnable
import WorkloadTuning.Proofs.Job.Runtime
import WorkloadTuning.Proofs.Json.Composition
import WorkloadTuning.Proofs.Json.NamedLists
import WorkloadTuning.Proofs.Json.Reading
import WorkloadTuning.Proofs.Labels.Hints
import WorkloadTuning.Proofs.LockTable.Exclusion
import WorkloadTuning.Proofs.Patch.MergePatch
import WorkloadTuning.Proofs.Patch.Objects
import WorkloadTuning.Proofs.Quantity.Range
import WorkloadTuning.Proofs.Selection.Amounts
import WorkloadTuning.Proofs.Selection.Criteria
import WorkloadTuning.Proofs.Service.Baseline
import WorkloadTuning.Proofs.Service.Constraints
import WorkloadTuning.Proofs.Service.Reporting
import WorkloadTuning.Proofs.Synchronization.Batch
import WorkloadTuning.Proofs.Synchronization.Closing
import WorkloadTuning.Proofs.Synchronization.Course
import WorkloadTuning.Proofs.Synchronization.Session
import WorkloadTuning.Proofs.Template.Merging
import WorkloadTuning.Proofs.Template.References
import WorkloadTuning.Proofs.Template.Writing
import WorkloadTuning.Proofs.Text.DigitOrder
import WorkloadTuning.Proofs.Trial.Numbering
import WorkloadTuning.Proofs.Trial.Rendering
import WorkloadTuning.Synchronization
