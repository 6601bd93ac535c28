import HingeLoss.Store.Resident

/-! A grounding session: the term store and the atom store under one writer. -/

namespace HingeLoss

structure GroundingSession (α : Type) where
  store : ResidentStore α
  atoms : AtomStore α

namespace GroundingSession

variable {α : Type}

/-- Only a grounding store can be opened. -/
def ofStore (store : ResidentStore α) (atoms : AtomStore α) :
    Except (StoreFault α) (GroundingSession α) :=
  if store.phase = .grounding then .ok ⟨store, atoms⟩
  else .error (.misuse (.sessionIn store.phase))

def add (session : GroundingSession α) (term : Term α) :
    Except (StoreFault α) TermId × GroundingSession α :=
  let (answer, store, atoms) := session.store.add term session.atoms
  (answer, ⟨store, atoms⟩)

/-- The terms are added up to the first fault. The answer is their number. -/
def addAll (session : GroundingSession α) :
    List (Term α) → Except (StoreFault α) Nat × GroundingSession α
  | [] => (.ok 0, session)
  | term :: rest =>
      match session.add term with
      | (.error fault, session) => (.error fault, session)
      | (.ok _, session) =>
          let (answer, session) := addAll session rest
          (answer.map (· + 1), session)

/-- Every item is added on its own. A fault in place of a term is its own answer. -/
def addEach (session : GroundingSession α) : List (Except (StoreFault α) (Term α)) →
    List (Except (StoreFault α) TermId) × GroundingSession α
  | [] => ([], session)
  | .error fault :: rest =>
      let (answers, session) := addEach session rest
      (.error fault :: answers, session)
  | .ok term :: rest =>
      let (answer, session) := session.add term
      let (answers, session) := addEach session rest
      (answer :: answers, session)

/-- The terms in batches of a size. The last batch may be smaller. -/
def batches (size : Nat) (terms : List (Term α)) : List (List (Term α)) :=
  (List.range ((terms.length + size - 1) / size)).map fun index =>
    (terms.drop (index * size)).take size

/-- The batches are added one by one, going on after faults. -/
def addBatches (session : GroundingSession α) : List (List (Term α)) →
    List (Except (StoreFault α) Nat) × GroundingSession α
  | [] => ([], session)
  | batch :: rest =>
      let (answer, session) := session.addAll batch
      let (answers, session) := addBatches session rest
      (answer :: answers, session)

/-- The store is sealed. The answer is the number of its terms. -/
def finish (session : GroundingSession α) : Except (StoreFault α) Nat × GroundingSession α :=
  match session.store.finish with
  | .error fault => (.error fault, session)
  | .ok store => (.ok store.size, { session with store })

end GroundingSession

end HingeLoss
