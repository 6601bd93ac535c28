import HingeLoss.Random.Shuffle
import HingeLoss.Store.Components
import HingeLoss.Store.Stream

/-! The resident store: all terms in memory, in the order of their arrival. -/

namespace HingeLoss

/-- The number of terms per rule. -/
abbrev RuleCounts := Std.TreeMap RuleId Nat

/-- One more term of a rule. -/
def RuleCounts.count (counts : RuleCounts) (rule : RuleId) : RuleCounts :=
  counts.alter rule fun known => some (known.getD 0 + 1)

/-- The faults of the first atom of a list that a store does not hold. -/
def AtomStore.checkAll {α : Type} (atoms : AtomStore α) (needed : List AtomId) :
    Except (AtomFault α) Unit :=
  needed.forM atoms.check

structure ResidentStore (α : Type) where
  terms : Array (Term α)
  components : ComponentIndex
  counts : RuleCounts
  phase : Phase

namespace ResidentStore

variable {α : Type}

def empty : ResidentStore α := ⟨#[], .empty, ∅, .grounding⟩

def size (store : ResidentStore α) : Nat := store.terms.size

/-- A term takes the next number and is filed under its component. -/
def add (store : ResidentStore α) (term : Term α) (atoms : AtomStore α) :
    Except (StoreFault α) TermId × ResidentStore α × AtomStore α :=
  match store.phase with
  | .ready => (.error (.misuse (.addWhenSealed .resident)), store, atoms)
  | .closed => (.error (.misuse (.onClosed .resident .add)), store, atoms)
  | .grounding =>
      match atoms.checkAll term.atoms with
      | .error fault => (.error (.atom fault), store, atoms)
      | .ok _ =>
          match store.components.insert store.size term atoms with
          | (.error fault, components, atoms) =>
              (.error (.atom fault), { store with components }, atoms)
          | (.ok _, components, atoms) =>
              (.ok store.size,
                { store with
                  terms := store.terms.push term
                  components
                  counts := store.counts.count term.rule },
                atoms)

/-- The end of grounding. Terms can be read from now on. -/
def finish (store : ResidentStore α) : Except (StoreFault α) (ResidentStore α) :=
  match store.phase with
  | .closed => .error (.misuse (.onClosed .resident .seal))
  | _ => .ok { store with phase := .ready }

def ensureReady (store : ResidentStore α) : Except (StoreFault α) Unit :=
  match store.phase with
  | .ready => .ok ()
  | .grounding => .error (.misuse (.readWhileGrounding .resident))
  | .closed => .error (.misuse (.readWhenClosed .resident))

/-- A new round without terms. The partition of the atoms is the caller's to reset. -/
def clear (store : ResidentStore α) : Except (StoreFault α) (ResidentStore α) :=
  match store.phase with
  | .closed => .error (.misuse (.onClosed .resident .clear))
  | _ => .ok empty

def close (_ : ResidentStore α) : ResidentStore α := { empty with phase := .closed }

def get (store : ResidentStore α) (index : TermId) : Except (StoreFault α) (Term α) :=
  match store.phase with
  | .closed => .error (.misuse (.onClosed .resident .get))
  | _ =>
      match store.terms[index]? with
      | some term => .ok term
      | none => .error (.termOutOfRange index store.size)

/-- Every term of a rule takes a weight. The answer is their number. -/
def setWeight [Scalar α] (store : ResidentStore α) (rule : RuleId) (weight : Weight α) :
    Except (StoreFault α) (Nat × ResidentStore α) :=
  match store.phase with
  | .closed => .error (.misuse (.onClosed .resident .setWeight))
  | _ =>
      (weight.validate rule).map fun _ =>
        (store.terms.countP fun term => term.rule = rule,
          { store with terms := store.terms.map (Term.reweigh rule weight) })

end ResidentStore

/-- A sweep over the terms of a resident store, in order or shuffled anew at each beginning. -/
structure ResidentSweep (α : Type) where
  terms : Array (Term α)
  order : Array TermId
  position : Nat
  shuffle : Shuffle
  generator : Option Generator

namespace ResidentSweep

variable {α : Type}

/-- A sweep can be taken from before its first beginning. -/
def ofStore (store : ResidentStore α) (seed : Option UInt64) (shuffle : Shuffle := .chaCha) :
    Except (StoreFault α) (ResidentSweep α) :=
  store.ensureReady.map fun _ =>
    ⟨store.terms, Array.range store.size, 0, shuffle, seed.map shuffle.start⟩

def begin (sweep : ResidentSweep α) : ResidentSweep α :=
  match sweep.generator with
  | none => { sweep with position := 0 }
  | some generator =>
      let (order, generator) := sweep.shuffle.run generator sweep.order
      { sweep with order, position := 0, generator := some generator }

def next (sweep : ResidentSweep α) : Option (Term α) × ResidentSweep α :=
  if inRange : sweep.position < sweep.order.size then
    match sweep.terms[sweep.order[sweep.position]]? with
    | some term => (some term, { sweep with position := sweep.position + 1 })
    | none => (none, sweep)
  else (none, sweep)

instance : TermStream (ResidentSweep α) α where
  beginSweep sweep := (.ok (), sweep.begin)
  nextTerm sweep := (.ok sweep.next.1, sweep.next.2)
  termCount sweep := sweep.order.size
  left sweep := (0, sweep.order.size - sweep.position)
  leftDecreases := by
    intro sweep term rest lent
    obtain ⟨found, same⟩ := Prod.mk.inj lent
    rw [Except.ok.injEq] at found
    subst same
    unfold next at found ⊢
    apply Prod.Lex.right
    grind

end ResidentSweep

end HingeLoss
