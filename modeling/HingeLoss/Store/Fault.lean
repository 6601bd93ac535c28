import HingeLoss.Page.Fault

/-! What can go wrong with a term store. -/

namespace HingeLoss

/-- A store grounds terms, then serves them, and in the end is closed. -/
inductive Phase where
  | grounding
  | ready
  | closed
deriving DecidableEq

def Phase.name : Phase → String
  | .grounding => "grounding"
  | .ready => "ready"
  | .closed => "closed"

inductive StoreKind where
  | resident
  | paged
deriving DecidableEq

def StoreKind.name : StoreKind → String
  | .resident => "term store"
  | .paged => "streaming store"

/-- The operations that a closed store refuses by name. -/
inductive StoreAction where
  | add
  | seal
  | clear
  | get
  | setWeight
deriving DecidableEq

def StoreAction.name : StoreAction → String
  | .add => "add"
  | .seal => "seal"
  | .clear => "clear"
  | .get => "get"
  | .setWeight => "set_weight"

/-- The operations that do not fit the state of a store. -/
inductive Misuse where
  | onClosed (kind : StoreKind) (action : StoreAction)
  | addWhenSealed (kind : StoreKind)
  | readWhileGrounding (kind : StoreKind)
  | readWhenClosed (kind : StoreKind)
  | sessionIn (phase : Phase)
  | noPageRoom
  | cursorPastPage
  | other (text : String)
deriving DecidableEq

def Misuse.text : Misuse → String
  | .onClosed kind action => action.name ++ " on a closed " ++ kind.name
  | .addWhenSealed .resident =>
      "store is sealed for optimization; clear() it to start a new round"
  | .addWhenSealed .paged => "streaming store is sealed; clear() it to ground a new round"
  | .readWhileGrounding .resident =>
      "term store is still grounding; seal() it before optimizing"
  | .readWhileGrounding .paged =>
      "streaming store is still grounding; seal() it before replaying"
  | .readWhenClosed kind => kind.name ++ " is closed"
  | .sessionIn phase => "cannot start grounding on a " ++ phase.name ++ " store"
  | .noPageRoom => "page_terms must be at least 1"
  | .cursorPastPage => "page cursor points past the loaded page"
  | .other text => text

/-- The faults of the database that keeps atoms between runs. -/
inductive DatabaseFault where
  | gap (index : Nat)
  | undecodable (index : Nat)
  | unavailable (task : String) (fault : SystemFault)
  | other (text : String)
deriving DecidableEq

/-- A record that cannot be decoded is named without an introduction. -/
def DatabaseFault.message : DatabaseFault → String
  | .gap index => s!"atom database error: atom table has a gap before index {index}"
  | .undecodable index => s!"decode atom {index} failed"
  | .unavailable task fault => "atom database error: " ++ task ++ ": " ++ fault.text
  | .other text => "atom database error: " ++ text

inductive StoreFault (α : Type) where
  | termOutOfRange (index count : Nat)
  | misuse (cause : Misuse)
  | malformedTerm (rule : RuleId) (fault : TermFault α)
  | unknownRule (rule : RuleId)
  | atom (fault : AtomFault α)
  | page (fault : PageFault)
  | database (fault : DatabaseFault)
deriving DecidableEq

namespace StoreFault

def code {α : Type} : StoreFault α → String
  | termOutOfRange _ _ => "hlmrf::store::term_out_of_range"
  | misuse _ => "hlmrf::store::illegal_state"
  | malformedTerm _ _ => "hlmrf::store::malformed_term"
  | unknownRule _ => "hlmrf::store::unknown_rule"
  | atom fault => fault.code
  | page fault => fault.code
  | database _ => "hlmrf::store::durable"

def message : StoreFault Single → String
  | termOutOfRange index count =>
      s!"term index {index} out of range (store holds {count} terms)"
  | misuse cause => "illegal term store state: " ++ cause.text
  | malformedTerm rule fault => s!"malformed term from rule {rule.index}: " ++ fault.text
  | unknownRule rule => s!"unknown rule {rule.index}"
  | atom fault => fault.message
  | page fault => fault.message
  | database fault => fault.message

def help {α : Type} : StoreFault α → String
  | termOutOfRange _ _ =>
      "Term ids are dense indices assigned by `add`; check the id came from this store."
  | misuse _ =>
      "Term stores only accept `add` while grounding and only serve reads " ++
        "once grounding has finished. A closed store cannot be reused."
  | malformedTerm _ _ => "Terms need at least one atom and one finite coefficient per atom."
  | unknownRule _ => "Register the rule in the RuleSet before grounding or re-weighting it."
  | atom fault => fault.help
  | page fault => fault.help
  | database _ =>
      "The embedded atom database encountered an error. " ++
        "This may indicate corruption; try a fresh persistence directory."

def source {α : Type} : StoreFault α → Option String
  | page fault => fault.source
  | _ => none

end StoreFault

/-- A valid weight passes; another one is a fault of its rule. -/
def Weight.validate {α : Type} [Scalar α] (weight : Weight α) (rule : RuleId) :
    Except (StoreFault α) Unit :=
  match weight with
  | .hard => .ok ()
  | .soft value =>
      if Scalar.isNonnegative value then .ok () else .error (.malformedTerm rule (.weight value))

end HingeLoss
