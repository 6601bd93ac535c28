import HingeLoss.Proofs.Descent.Token
import HingeLoss.Proofs.Store.Sweep

/-! The epochs of a descent one by one, each of which a run may stop after. -/

namespace HingeLoss

namespace TermStream

variable {σ α : Type} [TermStream σ α]

/-- Streams each of whose sweeps lends certain terms, and that stay such streams. -/
structure LendsAlways (keeps : σ → Prop) (terms : List (Term α)) : Prop where
  sweeps : ∀ stream, keeps stream → ∃ begun last, beginSweep stream = (.ok (), begun) ∧
    Drains begun terms last ∧ keeps last ∧ termCount last = terms.length

end TermStream

namespace ResidentSweep

variable {α : Type} {terms : Array (Term α)} {seed : Option UInt64}

theorem keeps_whole (terms : Array (Term α)) (seed : Option UInt64) :
    TermStream.Keeps fun sweep : ResidentSweep α => sweep.Whole terms seed :=
  ⟨fun _ whole => whole.begin, fun _ whole => whole.next⟩

/-- However it is shuffled, a store of one term lends this term. -/
theorem lendsAlways_singleton (term : Term α) (seed : Option UInt64) :
    TermStream.LendsAlways (fun sweep : ResidentSweep α => sweep.Whole #[term] seed) [term] where
  sweeps sweep whole := by
    obtain ⟨last, drains⟩ := whole.begin.drains
    rw [position_begin, List.drop_zero] at drains
    have lent : sweep.begin.order.toList.filterMap (#[term].toList[·]?) = [term] :=
      List.perm_singleton.mp (filterMap_getElem?_perm whole.begin.drawn)
    rw [lent] at drains
    have kept := (keeps_whole #[term] seed).drains whole.begin drains
    refine ⟨sweep.begin, last, rfl, drains, kept, ?_⟩
    change last.order.size = 1
    rw [← Array.length_toList, kept.drawn.length_eq]
    rfl

end ResidentSweep

namespace Descent

variable {σ α β : Type} [Scalar α] [Scalar β] [Widening α β] [TermStream σ α]

/-- What exactly so many epochs lead to, without a look at the token or the tolerance. -/
def epochsAfter (settings : DescentSettings α) (records : Array (AtomRecord α))
    (start : Ending α β) (stream : σ) : Nat → Except (SolverFault α) (Ending α β) × σ
  | 0 => (.ok start, stream)
  | count + 1 =>
      match epochsAfter settings records start stream count with
      | (.error fault, stream) => (.error fault, stream)
      | (.ok ending, stream) =>
          match runEpoch settings records ending stream with
          | (.error fault, stream) => (.error fault, stream)
          | (.ok ending, stream) => (.ok { ending with epochs := ending.epochs + 1 }, stream)

variable {settings : DescentSettings α} {records : Array (AtomRecord α)} {start ending : Ending α β}
  {stream rest : σ}

/-- If every epoch succeeds, the epochs of a run end with the values after some of them. -/
theorem exists_runEpochsUnder (token : Token σ)
    (succeeds : ∀ count, ∃ ending passed,
      epochsAfter settings records start stream count = (.ok ending, passed))
    {done : Nat} (here : epochsAfter settings records start stream done = (.ok ending, rest))
    (left : Nat) :
    ∃ after last count reached, runEpochsUnder settings records token left ending rest =
        (.ok after, last) ∧ count ≤ done + left ∧
      epochsAfter settings records start stream count = (.ok reached, last) ∧
      after.values = reached.values ∧
      (after.status = .cancelled ∨ after.epochs = reached.epochs) := by
  induction left generalizing ending rest done with
  | zero => exact ⟨ending, rest, done, ending, rfl, Nat.le_refl _, here, rfl, .inr rfl⟩
  | succ left inductionHypothesis =>
      unfold runEpochsUnder
      split
      · exact ⟨_, rest, done, ending, rfl, Nat.le_add_right _ _, here, rfl, .inl rfl⟩
      · obtain ⟨next, passed, nextReached⟩ := succeeds (done + 1)
        have epochs := nextReached
        rw [epochsAfter, here] at epochs
        dsimp only at epochs
        rcases epochRan : runEpoch settings records ending rest with ⟨_ | moved, later⟩
        · rw [epochRan] at epochs
          cases epochs
        · rw [epochRan] at epochs
          cases epochs
          dsimp only
          have within : done + 1 ≤ done + (left + 1) := by omega
          split
          · exact ⟨_, _, done + 1, _, rfl, within, nextReached, rfl, .inl rfl⟩
          · split
            · exact ⟨_, _, done + 1, _, rfl, within, nextReached, rfl, .inr rfl⟩
            · obtain ⟨after, last, count, reached, ran, bounded, found, same, epochs⟩ :=
                inductionHypothesis nextReached
              exact ⟨after, last, count, reached, ran, by omega, found, same, epochs⟩

/-- What every epoch keeps and lets it succeed holds after any number of them. -/
theorem exists_epochsAfter (holds : Nat → Ending α β → σ → Prop)
    (epochs : ∀ count ending stream, holds count ending stream →
      ∃ after last, runEpoch settings records ending stream = (.ok after, last) ∧
        holds (count + 1) { after with epochs := after.epochs + 1 } last)
    (here : holds 0 start stream) (count : Nat) :
    ∃ ending passed, epochsAfter settings records start stream count = (.ok ending, passed) ∧
      holds count ending passed := by
  induction count with
  | zero => exact ⟨start, stream, rfl, here⟩
  | succ count inductionHypothesis =>
      obtain ⟨ending, passed, reached, kept⟩ := inductionHypothesis
      obtain ⟨after, last, ran, keptAfter⟩ := epochs count ending passed kept
      refine ⟨_, last, ?_, keptAfter⟩
      rw [epochsAfter, reached]
      dsimp only
      rw [ran]

end Descent

end HingeLoss
