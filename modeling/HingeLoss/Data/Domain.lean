import HingeLoss.Data.Basic
import HingeLoss.Page.Image
import HingeLoss.Rule.Ground
import HingeLoss.Solver.Report

/-! Atoms, weights, rules, terms, reports and counters as data, and back without validation. -/

namespace HingeLoss

namespace AtomId

def toData (atom : AtomId) : Data := .whole atom.index

def ofData? (data : Data) : Option AtomId := data.word32?.map AtomId.mk

end AtomId

namespace AtomRecord

def toData (record : AtomRecord Single) : Data :=
  .record [("value", .short record.value), ("fixed", .flag record.fixed)]

def ofData? (data : Data) : Option (AtomRecord Single) := do
  let fields ← data.fields? ["value", "fixed"]
  let value ← fields.required "value" Data.single?
  let fixed ← fields.required "fixed" Data.flag?
  some ⟨value, fixed⟩

end AtomRecord

namespace Shape

def label : Shape → String
  | linear => "Linear"
  | hinge => "Hinge"
  | squaredLinear => "SquaredLinear"
  | squaredHinge => "SquaredHinge"

def ofLabel? (label : String) : Option Shape :=
  [linear, hinge, squaredLinear, squaredHinge].find? fun shape => shape.label = label

def toData (shape : Shape) : Data := .text shape.label

def ofData? (data : Data) : Option Shape :=
  (data.unit? ["Linear", "Hinge", "SquaredLinear", "SquaredHinge"]).bind ofLabel?

end Shape

namespace Weight

def toData : Weight Single → Data
  | soft value => .record [("Soft", .short value)]
  | hard => .text "Hard"

def ofData? : Data → Option (Weight Single)
  | .record [("Soft", value)] => value.single?.map soft
  | data => (data.unit? ["Hard"]).map fun _ => hard

end Weight

namespace Comparator

def label : Comparator → String
  | atMost => "LessEqual"
  | atLeast => "GreaterEqual"
  | equal => "Equal"

def toData (comparator : Comparator) : Data := .text comparator.label

def ofData? (data : Data) : Option Comparator := do
  let label ← data.unit? ["LessEqual", "GreaterEqual", "Equal"]
  [atMost, atLeast, equal].find? fun comparator => comparator.label = label

end Comparator

namespace Rule

def toData (rule : Rule Single) : Data :=
  .record [("id", .whole rule.id.index), ("name", .text rule.name),
    ("weight", rule.weight.toData), ("squared", .flag rule.squared)]

def ofData? (data : Data) : Option (Rule Single) := do
  let fields ← data.fields? ["id", "name", "weight", "squared"]
  let id ← fields.required "id" Data.word32?
  let name ← fields.required "name" Data.text?
  let weight ← fields.required "weight" Weight.ofData?
  let squared ← fields.required "squared" Data.flag?
  some ⟨⟨id⟩, name, weight, squared⟩

end Rule

namespace Term

def toData (term : Term Single) : Data :=
  .record [("rule", .whole term.rule.index), ("kind", term.shape.toData),
    ("weight", term.weight.toData), ("constant", .short term.constant),
    ("atoms", .list (term.atoms.map AtomId.toData)),
    ("coefficients", .list (term.coefficients.map Data.short))]

def ofData? (data : Data) : Option (Term Single) := do
  let fields ← data.fields? ["rule", "kind", "weight", "constant", "atoms", "coefficients"]
  let rule ← fields.required "rule" Data.word32?
  let shape ← fields.required "kind" Shape.ofData?
  let weight ← fields.required "weight" Weight.ofData?
  let constant ← fields.required "constant" Data.single?
  let atoms ← fields.required "atoms" (Data.listOf? AtomId.ofData?)
  let coefficients ← fields.required "coefficients" (Data.listOf? Data.single?)
  some ⟨⟨rule⟩, shape, weight, constant, atoms, coefficients⟩

end Term

namespace RunStatus

def ofData? (data : Data) : Option RunStatus := do
  let name ← data.unit? ["converged", "max-iterations-reached", "cancelled"]
  [converged, maxIterationsReached, cancelled].find? fun status => status.name = name

end RunStatus

namespace RunReport

def toData (report : RunReport Double) : Data :=
  .record [("status", .text report.status.name), ("iterations", .whole report.iterations),
    ("primal_residual", .real report.primalResidual),
    ("dual_residual", .real report.dualResidual), ("objective", .real report.objective),
    ("violated_constraints", .whole report.violatedConstraints)]

def ofData? (data : Data) : Option (RunReport Double) := do
  let fields ← data.fields? ["status", "iterations", "primal_residual", "dual_residual",
    "objective", "violated_constraints"]
  let status ← fields.required "status" RunStatus.ofData?
  let iterations ← fields.required "iterations" Data.size?
  let primal ← fields.required "primal_residual" Data.double?
  let dual ← fields.required "dual_residual" Data.double?
  let objective ← fields.required "objective" Data.double?
  let violated ← fields.required "violated_constraints" Data.size?
  some ⟨status, iterations, primal, dual, objective, violated⟩

end RunReport

namespace Traffic

def toData (traffic : Traffic) : Data :=
  .record [("pages_written", .whole traffic.pagesWritten),
    ("bytes_written", .whole traffic.bytesWritten), ("pages_read", .whole traffic.pagesRead),
    ("bytes_read", .whole traffic.bytesRead), ("cache_hits", .whole traffic.cacheHits)]

end Traffic

end HingeLoss
