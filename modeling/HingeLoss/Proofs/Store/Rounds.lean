import HingeLoss.Proofs.Store.Numbering
import HingeLoss.Proofs.Term.Record
import HingeLoss.Store.Session

/-! Between two clearings a resident store counts and files the terms that were added to it. -/

namespace HingeLoss

section Calls

variable {σ κ ρ γ : Type}

/-- Calls that follow one another, with their answers in the same order. -/
def performAll (respond : σ → κ → ρ × σ) (state : σ) : List κ → List ρ × σ
  | [] => ([], state)
  | call :: later =>
      let (answer, state) := respond state call
      let (answers, state) := performAll respond state later
      (answer :: answers, state)

/-- Every call is admitted by the state that it comes to. -/
def Throughout (respond : σ → κ → ρ × σ) (admits : σ → κ → Prop) (state : σ) : List κ → Prop
  | [] => True
  | call :: later => admits state call ∧ Throughout respond admits (respond state call).2 later

/-- What is noted from call to call. -/
def notes (note : γ → κ → ρ → γ) (first : γ) (calls : List κ) (answers : List ρ) : γ :=
  (calls.zip answers).foldl (fun noted entry => note noted entry.1 entry.2) first

theorem performAll_cons (respond : σ → κ → ρ × σ) (state : σ) (call : κ) (later : List κ) :
    performAll respond state (call :: later) =
      ((respond state call).1 :: (performAll respond (respond state call).2 later).1,
        (performAll respond (respond state call).2 later).2) := rfl

theorem performAll_append (respond : σ → κ → ρ × σ) (state : σ) (first second : List κ) :
    performAll respond state (first ++ second) =
      ((performAll respond state first).1 ++
          (performAll respond (performAll respond state first).2 second).1,
        (performAll respond (performAll respond state first).2 second).2) := by
  induction first generalizing state with
  | nil => rfl
  | cons call later inductionHypothesis =>
      rw [List.cons_append, performAll_cons, performAll_cons, inductionHypothesis]
      rfl

/-- What every admitted call keeps, all of them keep. -/
theorem performAll_keeps {respond : σ → κ → ρ × σ} {admits : σ → κ → Prop}
    {note : γ → κ → ρ → γ} {keeps : γ → σ → Prop}
    (step : ∀ noted state call, keeps noted state → admits state call →
      keeps (note noted call (respond state call).1) (respond state call).2)
    {noted : γ} {state : σ} (kept : keeps noted state) {calls : List κ}
    (admitted : Throughout respond admits state calls) :
    keeps (notes note noted calls (performAll respond state calls).1)
      (performAll respond state calls).2 := by
  induction calls generalizing noted state with
  | nil => exact kept
  | cons call later inductionHypothesis =>
      exact inductionHypothesis (step noted state call kept admitted.1) admitted.2

/-- What every call keeps, whatever is noted, all of them keep. -/
theorem performAll_invariant {respond : σ → κ → ρ × σ} {keeps : σ → Prop}
    (step : ∀ state call, keeps state → keeps (respond state call).2) {state : σ}
    (kept : keeps state) (calls : List κ) : keeps (performAll respond state calls).2 := by
  induction calls generalizing state with
  | nil => exact kept
  | cons call later inductionHypothesis => exact inductionHypothesis (step state call kept)

theorem throughout_true (respond : σ → κ → ρ × σ) (state : σ) (calls : List κ) :
    Throughout respond (fun _ _ => True) state calls := by
  induction calls generalizing state with
  | nil => trivial
  | cons call later inductionHypothesis => exact ⟨trivial, inductionHypothesis _⟩

/-- States that stay alike answer alike. -/
theorem performAll_alike {respond : σ → κ → ρ × σ} {admits : σ → κ → Prop}
    {alike : σ → σ → Prop}
    (step : ∀ first second call, alike first second → admits first call →
      (respond first call).1 = (respond second call).1 ∧
        alike (respond first call).2 (respond second call).2)
    {first second : σ} (same : alike first second) {calls : List κ}
    (admitted : Throughout respond admits first calls) :
    (performAll respond first calls).1 = (performAll respond second calls).1 ∧
      alike (performAll respond first calls).2 (performAll respond second calls).2 := by
  induction calls generalizing first second with
  | nil => exact ⟨rfl, same⟩
  | cons call later inductionHypothesis =>
      obtain ⟨answer, after⟩ := step first second call same admitted.1
      obtain ⟨answers, last⟩ := inductionHypothesis after admitted.2
      rw [performAll_cons, performAll_cons, answer, answers]
      exact ⟨rfl, last⟩

end Calls

/-- The number of terms that come from a rule; a rule without terms has no entry. -/
def Term.tally {α : Type} (terms : List (Term α)) (rule : RuleId) : Option Nat :=
  match terms.countP fun term => term.rule = rule with
  | 0 => none
  | count + 1 => some (count + 1)

/-- What a store has noted of the terms of a round. -/
structure Tallied {α : Type} (terms : List (Term α)) (termCount : Nat) (counts : RuleCounts)
    (components : ComponentIndex) : Prop where
  counted : termCount = terms.length
  perRule : ∀ rule, counts[rule]? = Term.tally terms rule
  numbered : components.Dense termCount

theorem tallied_nil {α : Type} : Tallied ([] : List (Term α)) 0 ∅ .empty :=
  ⟨rfl, fun _ => Std.TreeMap.getElem?_emptyc, ComponentIndex.dense_empty⟩

/-- A term that is filed under the next number and counted is noted. -/
theorem Tallied.append {α : Type} {terms : List (Term α)} {termCount : Nat} {counts : RuleCounts}
    {components filed : ComponentIndex} (tallied : Tallied terms termCount counts components)
    (term : Term α) (dense : filed.Dense (termCount + 1)) :
    Tallied (terms ++ [term]) (termCount + 1) (counts.count term.rule) filed where
  counted := by rw [tallied.counted, List.length_append, List.length_singleton]
  perRule rule := by
    have before := tallied.perRule rule
    simp only [RuleCounts.count, Std.TreeMap.getElem?_alter, Std.LawfulEqCmp.compare_eq_iff_eq,
      Term.tally, List.countP_append, List.countP_singleton] at before ⊢
    by_cases same : term.rule = rule
    · subst same
      simp only [if_true, decide_true, before]
      cases terms.countP fun other => other.rule = term.rule <;> rfl
    · simp only [same, if_false, decide_false, Bool.false_eq_true, Nat.add_zero, before]
  numbered := dense

namespace ResidentStore

/-- A term is added under the next number, or it is refused and the store stays as it is. -/
theorem add_cases {α : Type} (store : ResidentStore α) (term : Term α) {atoms : AtomStore α}
    (numbered : store.phase ≠ .closed → store.components.Dense store.size) :
    (∃ fault, (store.add term atoms).1 = .error fault ∧ (store.add term atoms).2.1 = store) ∨
      store.phase ≠ .closed ∧ ∃ filed, filed.Dense (store.size + 1) ∧
        (store.add term atoms).1 = .ok store.size ∧
        (store.add term atoms).2.1 = { store with
          terms := store.terms.push term
          components := filed
          counts := store.counts.count term.rule } := by
  unfold add
  cases phase : store.phase with
  | ready => exact .inl ⟨_, rfl, rfl⟩
  | closed => exact .inl ⟨_, rfl, rfl⟩
  | grounding =>
      dsimp only
      cases checked : atoms.checkAll term.atoms with
      | error fault => exact .inl ⟨_, rfl, rfl⟩
      | ok _ =>
          have outcome := (numbered (by simp [phase])).insert
            (AtomStore.inRange_of_checkAll checked)
          generalize store.components.insert store.size term atoms = inserted at outcome
          obtain ⟨answer, filed, joined⟩ := inserted
          rcases outcome with ⟨key, rfl, dense⟩ | ⟨fault, rfl, same, -⟩
          · exact .inr ⟨nofun, filed, dense, rfl, by rw [← phase]⟩
          · exact .inl ⟨_, rfl, by dsimp only at same ⊢; rw [same, ← phase]⟩

end ResidentStore

/-- What can be asked of a resident store, and of the atoms next to it. -/
inductive ResidentCall (α : Type) where
  | add (term : Term α)
  | finish
  | setWeight (rule : RuleId) (weight : Weight α)
  | clear
  | close
  | get (index : TermId)
  /-- Several sweeps with or without a seed, each with at most a number of terms. -/
  | sweep (seed : Option UInt64) (counts : List Nat)
  | changeAtoms (change : AtomChange α)

inductive ResidentAnswer (α : Type) where
  | added (answer : Except (StoreFault α) TermId)
  | done (answer : Except (StoreFault α) Unit)
  | reweighed (answer : Except (StoreFault α) Nat)
  | found (answer : Except (StoreFault α) (Term α))
  | swept
      (answer : Except (StoreFault α) (List (Except (StoreFault α) (List (Term α) × SweepStop α))))

/-- The terms of the present round: an added term is the last one, and clearing forgets them all. -/
def ResidentCall.note {α : Type} (terms : List (Term α)) :
    ResidentCall α → ResidentAnswer α → List (Term α)
  | .add term, .added (.ok _) => terms ++ [term]
  | .clear, .done (.ok _) => []
  | _, _ => terms

namespace GroundingSession

variable {α : Type}

/-- A new store beside new atoms. -/
def opened : GroundingSession α := ⟨.empty, .empty⟩

def respond [Scalar α] (session : GroundingSession α) :
    ResidentCall α → ResidentAnswer α × GroundingSession α
  | .add term =>
      let (answer, session) := session.add term
      (.added answer, session)
  | .finish =>
      match session.store.finish with
      | .error fault => (.done (.error fault), session)
      | .ok store => (.done (.ok ()), { session with store })
  | .setWeight rule weight =>
      match session.store.setWeight rule weight with
      | .error fault => (.reweighed (.error fault), session)
      | .ok (count, store) => (.reweighed (.ok count), { session with store })
  | .clear =>
      match session.store.clear with
      | .error fault => (.done (.error fault), session)
      | .ok store => (.done (.ok ()), { session with store })
  | .close => (.done (.ok ()), { session with store := session.store.close })
  | .get index => (.found (session.store.get index), session)
  | .sweep seed counts =>
      (.swept ((ResidentSweep.ofStore session.store seed).map fun sweep =>
        (TermStream.sweeps sweep counts).1), session)
  | .changeAtoms change => (.done (.ok ()), { session with atoms := session.atoms.change change })

/-- What a resident store has noted of the terms of a round, and the terms that it holds. They may
have got other weights since they were added. -/
structure Kept (terms : List (Term α)) (session : GroundingSession α) : Prop where
  tallied : session.store.phase ≠ .closed →
    Tallied terms session.store.size session.store.counts session.store.components
  held : session.store.phase ≠ .closed →
    List.Forall₂ (fun held added => ∃ weight, held = { added with weight })
      session.store.terms.toList terms

theorem kept_opened : Kept ([] : List (Term α)) opened where
  tallied _ := tallied_nil
  held _ := .nil

variable [Scalar α] {terms : List (Term α)} {session : GroundingSession α}

theorem Kept.add (kept : Kept terms session) (term : Term α) :
    Kept (ResidentCall.note terms (.add term) (session.respond (.add term)).1)
      (session.respond (.add term)).2 := by
  have outcome := @ResidentStore.add_cases _ session.store term session.atoms
    fun notClosed => (kept.tallied notClosed).numbered
  simp only [respond, GroundingSession.add]
  generalize session.store.add term session.atoms = added at outcome
  obtain ⟨answer, store, atoms⟩ := added
  dsimp only at outcome ⊢
  rcases outcome with ⟨fault, rfl, rfl⟩ | ⟨notClosed, filed, dense, rfl, rfl⟩
  · exact ⟨kept.tallied, kept.held⟩
  · refine ⟨fun _ => ?_, fun _ => ?_⟩
    · have appended := (kept.tallied notClosed).append term dense
      simpa [ResidentStore.size, ResidentCall.note] using appended
    · simp only [Array.toList_push, ResidentCall.note]
      exact List.rel_append (kept.held notClosed) (.cons ⟨term.weight, rfl⟩ .nil)

theorem Kept.setWeight (kept : Kept terms session) {rule : RuleId} {weight : Weight α}
    {count : Nat} {store : ResidentStore α}
    (reweighed : session.store.setWeight rule weight = .ok (count, store)) :
    Kept terms { session with store } := by
  unfold ResidentStore.setWeight at reweighed
  split at reweighed
  · cases reweighed
  · rename_i notClosed
    simp only [Except.map] at reweighed
    split at reweighed
    · cases reweighed
    · cases reweighed
      refine ⟨fun _ => ?_, fun _ => ?_⟩
      · simpa [ResidentStore.size] using kept.tallied notClosed
      · simp only [Array.toList_map, List.forall₂_map_left_iff]
        refine (kept.held notClosed).imp ?_
        rintro held added ⟨before, rfl⟩
        exact ⟨_, Term.reweigh_eq rule weight _⟩

/-- Every call keeps the notes of the round. -/
theorem Kept.respond (kept : Kept terms session) (call : ResidentCall α) :
    Kept (ResidentCall.note terms call (session.respond call).1) (session.respond call).2 := by
  cases call with
  | add term => exact kept.add term
  | finish =>
      simp only [GroundingSession.respond, ResidentStore.finish]
      cases phase : session.store.phase with
      | closed => exact kept
      | _ =>
          have notClosed : session.store.phase ≠ .closed := by simp [phase]
          exact ⟨fun _ => kept.tallied notClosed, fun _ => kept.held notClosed⟩
  | setWeight rule weight =>
      simp only [GroundingSession.respond]
      cases reweighed : session.store.setWeight rule weight with
      | error fault => exact kept
      | ok outcome => exact kept.setWeight reweighed
  | clear =>
      simp only [GroundingSession.respond, ResidentStore.clear]
      cases session.store.phase with
      | closed => exact kept
      | _ => exact ⟨fun _ => tallied_nil, fun _ => .nil⟩
  | close => exact ⟨nofun, nofun⟩
  | get index => exact kept
  | sweep seed counts => exact kept
  | changeAtoms change => exact ⟨kept.tallied, kept.held⟩

end GroundingSession

end HingeLoss
