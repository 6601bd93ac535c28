import HingeLoss.Atom.Store
import HingeLoss.Data.Domain
import HingeLoss.Fault
import HingeLoss.Json.Reader
import HingeLoss.Rule.Ground

/-! Problem files: atoms by number, rules by number, and groundings that refer to both. -/

namespace HingeLoss.CommandLine

/-- A rule of a problem. Without a weight it is a hard constraint. -/
structure RuleEntry where
  name : String
  weight : Option Single
  squared : Bool

structure Problem where
  atoms : List (AtomRecord Single)
  rules : List RuleEntry
  clauses : List Clause
  comparisons : List (Comparison Single)

def RuleEntry.ofData? (data : Data) : Option RuleEntry := do
  let fields ← data.fields? ["name", "weight", "squared"]
  let name ← fields.required "name" Data.text?
  let weight ← fields.nullable "weight" Data.single?
  let squared ← fields.defaulted "squared" false Data.flag?
  some ⟨name, weight, squared⟩

def atomList? (data : Data) : Option (List AtomId) := data.listOf? AtomId.ofData?

/-- The literals of the negated clause. -/
def clauseOfData? (data : Data) : Option Clause := do
  let fields ← data.fields? ["rule", "positive", "negative"]
  let rule ← fields.required "rule" Data.word32?
  let positive ← fields.defaulted "positive" [] atomList?
  let negative ← fields.defaulted "negative" [] atomList?
  some ⟨⟨rule⟩, positive, negative⟩

def comparisonOfData? (data : Data) : Option (Comparison Single) := do
  let fields ← data.fields? ["rule", "atoms", "coefficients", "comparator", "constant"]
  let rule ← fields.required "rule" Data.word32?
  let atoms ← fields.required "atoms" atomList?
  let coefficients ← fields.required "coefficients" (Data.listOf? Data.single?)
  let comparator ← fields.required "comparator" Comparator.ofData?
  let constant ← fields.required "constant" Data.single?
  some ⟨⟨rule⟩, atoms, coefficients, comparator, constant⟩

namespace Problem

def ofData? (data : Data) : Option Problem := do
  let fields ← data.fields? ["atoms", "rules", "logical", "arithmetic"]
  let atoms ← fields.required "atoms" (Data.listOf? AtomRecord.ofData?)
  let rules ← fields.required "rules" (Data.listOf? RuleEntry.ofData?)
  let clauses ← fields.defaulted "logical" [] (Data.listOf? clauseOfData?)
  let comparisons ← fields.defaulted "arithmetic" [] (Data.listOf? comparisonOfData?)
  some ⟨atoms, rules, clauses, comparisons⟩

def ofText? (text : String) : Option Problem := (Json.parse? text).bind ofData?

def ruleSet (problem : Problem) : Except (StoreFault Single) (RuleSet Single) :=
  problem.rules.foldlM (fun rules entry =>
    (rules.register entry.name (entry.weight.elim .hard .soft) entry.squared).map Prod.snd) .empty

/-- The terms of clauses, of which those that have been seen are passed over. -/
def clauseTerms (rules : RuleSet Single) :
    List Clause → List Clause → Except (StoreFault Single) (List (Term Single))
  | _, [] => .ok []
  | seen, clause :: rest =>
      if seen.contains clause then clauseTerms rules seen rest
      else do
        let term ← clause.term (← rules.get clause.rule)
        let later ← clauseTerms rules (clause :: seen) rest
        .ok (term :: later)

def comparisonTerms (rules : RuleSet Single) (comparison : Comparison Single) :
    Except (StoreFault Single) (List (Term Single)) := do
  comparison.terms (← rules.get comparison.rule)

end Problem

/-- A problem with its groundings made into terms. -/
structure Grounded where
  atoms : AtomStore Single
  rules : RuleSet Single
  terms : List (Term Single)

def Problem.ground (problem : Problem) : Except (StoreFault Single) Grounded := do
  let atoms ← (AtomStore.ofRecords problem.atoms).mapError .atom
  let rules ← problem.ruleSet
  let fromClauses ← clauseTerms rules [] problem.clauses
  let fromComparisons ← problem.comparisons.mapM (comparisonTerms rules)
  .ok ⟨atoms, rules, fromClauses ++ fromComparisons.flatten⟩

end HingeLoss.CommandLine
