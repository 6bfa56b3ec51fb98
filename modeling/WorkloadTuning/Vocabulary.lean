/-! Versions, labels, annotations and the finalizer that records of this system carry. -/

namespace WorkloadTuning.Vocabulary

def apiVersion : String := "tunable.dev/v1beta1"

/-- What the keys of all labels and annotations start with. -/
def domain : String := "tunable.dev/"

def experimentLabel : String := "tunable.dev/experiment"

def trialLabel : String := "tunable.dev/trial"

def trialRoleLabel : String := "tunable.dev/trial-role"

/-- The role of the job that runs a trial, and of its pods. -/
def trialRunRole : String := "trialRun"

def experimentUrl : String := "tunable.dev/experiment-url"

def nextTrialUrl : String := "tunable.dev/next-trial-url"

def reportTrialUrl : String := "tunable.dev/report-trial-url"

/-- Keeps a record around until the service knows its outcome. -/
def finalizer : String := "serverFinalizer.tunable.dev"

end WorkloadTuning.Vocabulary
