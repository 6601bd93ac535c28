import HingeLoss.Store.Fault

/-! Streams of terms that can be swept again and again, each time to an end. -/

namespace HingeLoss

class TermStream (σ : Type) (α : outParam Type) where
  beginSweep : σ → Except (StoreFault α) Unit × σ
  nextTerm : σ → Except (StoreFault α) (Option (Term α)) × σ
  /-- The number of terms that a whole sweep lends. -/
  termCount : σ → Nat
  left : σ → Nat × Nat
  leftDecreases : ∀ stream term rest, nextTerm stream = (.ok (some term), rest) →
    Prod.Lex (· < ·) (· < ·) (left rest) (left stream)

/-- A taking of terms stops at its limit, at the end of the sweep or at a fault. -/
inductive SweepStop (α : Type) where
  | limit
  | finished
  | failed (fault : StoreFault α)

namespace TermStream

variable {σ α γ ε : Type} [TermStream σ α]

/-- The terms left in the sweep change a state in turn, up to the first fault. -/
@[specialize] def fold (step : γ → Term α → Except ε γ) (wrap : StoreFault α → ε) (state : γ)
    (stream : σ) : γ × Option ε × σ :=
  match _found : nextTerm stream with
  | (.error fault, rest) => (state, some (wrap fault), rest)
  | (.ok none, rest) => (state, none, rest)
  | (.ok (some term), rest) =>
      match step state term with
      | .error fault => (state, some fault, rest)
      | .ok state => fold step wrap state rest
termination_by left stream
decreasing_by exact leftDecreases _ _ _ _found

/-- At most a number of terms of the sweep. -/
def take : Nat → σ → List (Term α) × SweepStop α × σ
  | 0, stream => ([], .limit, stream)
  | count + 1, stream =>
      match nextTerm stream with
      | (.error fault, rest) => ([], .failed fault, rest)
      | (.ok none, rest) => ([], .finished, rest)
      | (.ok (some term), rest) =>
          let (terms, stop, rest) := take count rest
          (term :: terms, stop, rest)

/-- All terms left in the sweep. -/
def drain (stream : σ) : List (Term α) × SweepStop α × σ :=
  let (terms, fault, rest) :=
    fold (ε := StoreFault α) (fun terms term => .ok (term :: terms)) id [] stream
  (terms.reverse, fault.elim .finished .failed, rest)

/-- Several sweeps, each with at most a number of terms. -/
def sweeps (stream : σ) : List Nat → List (Except (StoreFault α) (List (Term α) × SweepStop α)) × σ
  | [] => ([], stream)
  | count :: rest =>
      match beginSweep stream with
      | (.error fault, stream) => ([.error fault], stream)
      | (.ok _, stream) =>
          let (terms, stop, stream) := take count stream
          let (later, stream) := sweeps stream rest
          (.ok (terms, stop) :: later, stream)

end TermStream

end HingeLoss
