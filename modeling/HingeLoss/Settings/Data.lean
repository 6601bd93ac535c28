import HingeLoss.Data.Basic
import HingeLoss.Settings.Basic

/-! Settings as data, and back, with a standard value for every field. -/

namespace HingeLoss

namespace StepSchedule

def toData : StepSchedule Single → Data
  | constant => .record [("kind", .text "constant")]
  | inverseScale exponent =>
      .record [("kind", .text "inverse-scale"), ("exponent", .short exponent)]

/-- The schedule of a kind, from the fields beside it or the items behind it. -/
def ofKind? (kind : String) (content : Data) : Option (StepSchedule Single) :=
  if kind = "inverse-scale" then do
    let fields ← content.fields? ["exponent"]
    let exponent ← fields.required "exponent" Data.single?
    some (inverseScale exponent)
  else if kind = "constant" then
    match content with
    | .list (_ :: _) => none
    | _ => some constant
  else none

/-- The kind stands in a field of its own, or first in a list. -/
def ofData? (data : Data) : Option (StepSchedule Single) :=
  if !data.isReadable then none
  else match data with
    | .record fields =>
        match fields.filter fun field => field.1 = "kind" with
        | [(_, kind)] => do
            ofKind? (← kind.text?) (.record (fields.filter fun field => field.1 ≠ "kind"))
        | _ => none
    | .list (kind :: rest) => do ofKind? (← kind.text?) (.list rest)
    | _ => none

end StepSchedule

namespace ConsensusSettings

def toData (settings : ConsensusSettings Single) : Data :=
  .record [("max_iterations", .whole settings.maxIterations),
    ("penalty", .short settings.penalty), ("epsilon_abs", .short settings.epsilonAbs),
    ("epsilon_rel", .short settings.epsilonRel), ("log_period", .whole settings.logPeriod)]

def ofData? (data : Data) : Option (ConsensusSettings Single) := do
  let fields ← data.fields?
    ["max_iterations", "penalty", "epsilon_abs", "epsilon_rel", "log_period"]
  let standard : ConsensusSettings Single := .standard
  let maxIterations ← fields.defaulted "max_iterations" standard.maxIterations Data.size?
  let penalty ← fields.defaulted "penalty" standard.penalty Data.single?
  let epsilonAbs ← fields.defaulted "epsilon_abs" standard.epsilonAbs Data.single?
  let epsilonRel ← fields.defaulted "epsilon_rel" standard.epsilonRel Data.single?
  let logPeriod ← fields.defaulted "log_period" standard.logPeriod Data.size?
  some { maxIterations, penalty, epsilonAbs, epsilonRel, logPeriod }

end ConsensusSettings

namespace DescentSettings

def toData (settings : DescentSettings Single) : Data :=
  .record [("max_epochs", .whole settings.maxEpochs),
    ("learning_rate", .short settings.learningRate), ("adagrad", .flag settings.adagrad),
    ("tolerance", .short settings.tolerance), ("shuffle_terms", .flag settings.shuffleTerms),
    ("seed", .whole settings.seed.toNat), ("schedule", settings.schedule.toData)]

def ofData? (data : Data) : Option (DescentSettings Single) := do
  let fields ← data.fields? ["max_epochs", "learning_rate", "adagrad", "tolerance",
    "shuffle_terms", "seed", "schedule"]
  let standard : DescentSettings Single := .standard
  let maxEpochs ← fields.defaulted "max_epochs" standard.maxEpochs Data.size?
  let learningRate ← fields.defaulted "learning_rate" standard.learningRate Data.single?
  let adagrad ← fields.defaulted "adagrad" standard.adagrad Data.flag?
  let tolerance ← fields.defaulted "tolerance" standard.tolerance Data.single?
  let shuffleTerms ← fields.defaulted "shuffle_terms" standard.shuffleTerms Data.flag?
  let seed ← fields.defaulted "seed" standard.seed Data.word64?
  let schedule ← fields.defaulted "schedule" standard.schedule StepSchedule.ofData?
  some { maxEpochs, learningRate, adagrad, tolerance, shuffleTerms, seed, schedule }

end DescentSettings

namespace PagingSettings

def toData (settings : PagingSettings) : Data :=
  .record [("page_terms", .whole settings.pageTerms),
    ("page_bytes", settings.pageBytes.elim .null fun bytes => .whole bytes),
    ("cache_pages", .whole settings.cachePages), ("shuffle_page", .flag settings.shufflePage),
    ("randomize_page_access", .flag settings.randomizePageAccess),
    ("seed", .whole settings.seed.toNat),
    ("page_dir", settings.pageFolder.elim .null .text)]

def ofData? (data : Data) : Option PagingSettings := do
  let fields ← data.fields? ["page_terms", "page_bytes", "cache_pages", "shuffle_page",
    "randomize_page_access", "seed", "page_dir"]
  let standard : PagingSettings := {}
  let pageTerms ← fields.defaulted "page_terms" standard.pageTerms Data.size?
  let pageBytes ← fields.defaulted "page_bytes" none (Data.optional? Data.size?)
  let cachePages ← fields.defaulted "cache_pages" standard.cachePages Data.size?
  let shufflePage ← fields.defaulted "shuffle_page" standard.shufflePage Data.flag?
  let randomizePageAccess ← fields.defaulted "randomize_page_access"
    standard.randomizePageAccess Data.flag?
  let seed ← fields.defaulted "seed" standard.seed Data.word64?
  let pageFolder ← fields.defaulted "page_dir" none (Data.optional? Data.text?)
  some { pageTerms, pageBytes, cachePages, shufflePage, randomizePageAccess, seed, pageFolder }

end PagingSettings

namespace Settings

def toData (settings : Settings) : Data :=
  .record [("admm", settings.consensus.toData), ("sgd", settings.descent.toData),
    ("streaming", settings.paging.toData)]

def ofData? (data : Data) : Option Settings := do
  let fields ← data.fields? ["admm", "sgd", "streaming"]
  let consensus ← fields.defaulted "admm" .standard ConsensusSettings.ofData?
  let descent ← fields.defaulted "sgd" .standard DescentSettings.ofData?
  let paging ← fields.defaulted "streaming" {} PagingSettings.ofData?
  some ⟨consensus, descent, paging⟩

/-- The settings in the table of a settings file. Of a list in place of a table the items beyond the
fields are passed over. -/
def ofTable? : Data → Option Settings
  | .record fields => ofData? (.record (fields.map fun (name, data) =>
      (name, data.firstItems (if name = "admm" then 5 else 7))))
  | data => ofData? data

end Settings

end HingeLoss
