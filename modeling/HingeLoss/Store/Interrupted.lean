import HingeLoss.Store.Stream

/-! A stream whose cancel token fires just before a given beginning or request. -/

namespace HingeLoss

structure Interrupted (σ : Type) {α : Type} [TermStream σ α] where
  stream : σ
  /-- What the firing token does to the stream itself. -/
  onFire : σ → σ
  onFireKeepsLeft : ∀ stream, TermStream.left (onFire stream) = TermStream.left stream
  fired : Bool
  sweeps : Nat
  requests : Nat
  atSweep : Option Nat
  atRequest : Option Nat

namespace Interrupted

variable {σ α : Type} [TermStream σ α]

/-- The stream itself knows no token. -/
def ofStream (stream : σ) (fired : Bool) (atSweep atRequest : Option Nat) : Interrupted σ :=
  ⟨stream, id, fun _ => rfl, fired, 0, 0, atSweep, atRequest⟩

def fire (interrupted : Interrupted σ) : Interrupted σ :=
  { interrupted with fired := true, stream := interrupted.onFire interrupted.stream }

def countSweep (interrupted : Interrupted σ) : Interrupted σ :=
  let counted := { interrupted with sweeps := interrupted.sweeps + 1 }
  if counted.atSweep = some counted.sweeps then counted.fire else counted

def countRequest (interrupted : Interrupted σ) : Interrupted σ :=
  let counted := { interrupted with requests := interrupted.requests + 1 }
  if counted.atRequest = some counted.requests then counted.fire else counted

theorem left_countRequest (interrupted : Interrupted σ) :
    TermStream.left interrupted.countRequest.stream = TermStream.left interrupted.stream := by
  unfold countRequest
  dsimp only
  split
  · exact interrupted.onFireKeepsLeft _
  · rfl

instance : TermStream (Interrupted σ) α where
  beginSweep interrupted :=
    let counted := interrupted.countSweep
    let (answer, stream) := TermStream.beginSweep counted.stream
    (answer, { counted with stream })
  nextTerm interrupted :=
    let counted := interrupted.countRequest
    let (answer, stream) := TermStream.nextTerm counted.stream
    (answer, { counted with stream })
  termCount interrupted := TermStream.termCount interrupted.stream
  left interrupted := TermStream.left interrupted.stream
  leftDecreases := by
    intro interrupted term rest lent
    obtain ⟨found, same⟩ := Prod.mk.inj lent
    subst same
    rw [← left_countRequest interrupted]
    exact TermStream.leftDecreases _ term _ (Prod.ext found rfl)

end Interrupted

end HingeLoss
