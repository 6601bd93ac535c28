import HingeLoss.Number.Single
import HingeLoss.Settings.Fault

/-! The settings of both solvers and of the paged store, and the tests that a run can use them. -/

namespace HingeLoss

structure ConsensusSettings (α : Type) where
  maxIterations : Nat
  penalty : α
  epsilonAbs : α
  epsilonRel : α
  logPeriod : Nat
deriving DecidableEq

def ConsensusSettings.standard {α : Type} [Scalar α] : ConsensusSettings α where
  maxIterations := 25000
  penalty := 1
  epsilonAbs := Scalar.tenth 5
  epsilonRel := Scalar.tenth 3
  logPeriod := 50

instance {α : Type} [Scalar α] : Inhabited (ConsensusSettings α) := ⟨.standard⟩

/-- How step sizes shrink from epoch to epoch. -/
inductive StepSchedule (α : Type) where
  | constant
  | inverseScale (exponent : α)
deriving DecidableEq

/-- The step size of an epoch, counted from zero. The number behind it is one of sixty-four bits. -/
def StepSchedule.step {α : Type} [Scalar α] (schedule : StepSchedule α) (rate : α) (epoch : Nat) :
    α :=
  match schedule with
  | .constant => rate
  | .inverseScale exponent => rate / Scalar.pow (((epoch + 1) % UInt64.size : Nat) : α) exponent

structure DescentSettings (α : Type) where
  maxEpochs : Nat
  learningRate : α
  adagrad : Bool
  tolerance : α
  shuffleTerms : Bool
  seed : UInt64
  schedule : StepSchedule α
deriving DecidableEq

def DescentSettings.standard {α : Type} [Scalar α] : DescentSettings α where
  maxEpochs := 200
  learningRate := 1
  adagrad := false
  tolerance := Scalar.tenth 5
  shuffleTerms := true
  seed := 4
  schedule := .inverseScale 1

instance {α : Type} [Scalar α] : Inhabited (DescentSettings α) := ⟨.standard⟩

structure PagingSettings where
  pageTerms : Nat := 10000
  pageBytes : Option Nat := none
  cachePages : Nat := 0
  shufflePage : Bool := true
  randomizePageAccess : Bool := true
  seed : UInt64 := 4
  pageFolder : Option String := none
deriving DecidableEq, Inhabited

/-- Every sweep yields the terms in the order of their grounding. -/
def PagingSettings.sequential (pageTerms : Nat) : PagingSettings :=
  { pageTerms, shufflePage := false, randomizePageAccess := false }

namespace Room

/-- The bytes of one item of a kind. The lists of a term are kept elsewhere. -/
inductive Item where
  | atom
  | term
  | residentPage

def Item.bytes : Item → Nat
  | atom => 4
  | term => 72
  | residentPage => 40

/-- All bytes of a number of items have signed addresses of sixty-four bits. -/
def fits (count : Nat) (item : Item) : Bool :=
  decide ((count * item.bytes : Nat) ≤ Int64.maxValue.toInt)

end Room

/-- A paged store has room for the terms of one page and for the pages that stay resident. -/
def PagingSettings.fitMemory (settings : PagingSettings) : Bool :=
  Room.fits settings.pageTerms .term && Room.fits settings.cachePages .residentPage

structure Settings where
  consensus : ConsensusSettings Single
  descent : DescentSettings Single
  paging : PagingSettings
deriving DecidableEq

namespace Settings

def standard : Settings := ⟨.standard, .standard, {}⟩

/-- The first value that no run can use is the fault. -/
def validate (settings : Settings) : Except SettingsFault Unit :=
  let consensus := settings.consensus
  let descent := settings.descent
  let paging := settings.paging
  if !Scalar.isPositive consensus.penalty then .error (.invalid (.penalty consensus.penalty))
  else if !Scalar.isNonnegative consensus.epsilonAbs || !Scalar.isNonnegative consensus.epsilonRel
  then .error (.invalid .tolerances)
  else if !Scalar.isPositive descent.learningRate then
    .error (.invalid (.learningRate descent.learningRate))
  else match descent.schedule with
    | .inverseScale exponent =>
        if Scalar.isNonnegative exponent then rest descent paging
        else .error (.invalid (.exponent exponent))
    | .constant => rest descent paging
where
  rest (descent : DescentSettings Single) (paging : PagingSettings) : Except SettingsFault Unit :=
    if !Scalar.isNonnegative descent.tolerance then .error (.invalid .tolerance)
    else if paging.pageTerms = 0 then .error (.invalid .pageTerms)
    else if paging.pageBytes = some 0 then .error (.invalid .pageBytes)
    else .ok ()

end Settings

end HingeLoss
