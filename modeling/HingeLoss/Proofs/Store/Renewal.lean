import HingeLoss.Proofs.Store.Rounds

/-! A resident store that is cleared next to a reset partition is a new one. -/

namespace HingeLoss

namespace ComponentIndex

variable {α : Type}

theorem records_link (index : ComponentIndex) (atoms : AtomStore α) (root : AtomId)
    (list : List AtomId) : (index.link atoms root list).2.2.records = atoms.records := by
  induction list generalizing index atoms root with
  | nil => rfl
  | cons atom rest inductionHypothesis =>
      rw [link]
      rcases atoms.isFixed atom with fault | _ | _
      · rfl
      · dsimp only
        cases found : atoms.find atom with
        | error fault => rfl
        | ok walk =>
            obtain ⟨other, walked⟩ := walk
            have walkedRecords := AtomStore.records_of_find found
            dsimp only
            split
            · rw [inductionHypothesis, walkedRecords]
            · cases union : walked.union root other with
              | error fault => exact walkedRecords
              | ok joined =>
                  obtain ⟨merged, united⟩ := joined
                  rw [inductionHypothesis, AtomStore.records_of_union union, walkedRecords]
      · exact inductionHypothesis index atoms root

/-- Filing a term leaves the records of the atoms as they are. -/
theorem records_insert (index : ComponentIndex) (id : TermId) (term : Term α)
    (atoms : AtomStore α) : (index.insert id term atoms).2.2.records = atoms.records := by
  unfold insert
  rcases anchor atoms term.atoms with fault | _ | free
  · rfl
  · dsimp only
    cases term.atoms with
    | nil => rfl
    | cons first rest =>
        dsimp only
        cases found : atoms.find first with
        | error fault => rfl
        | ok walk => exact AtomStore.records_of_find found
  · dsimp only
    cases found : atoms.find free with
    | error fault => rfl
    | ok walk =>
        obtain ⟨root, walked⟩ := walk
        exact (records_link ..).trans (AtomStore.records_of_find found)

end ComponentIndex

theorem ResidentStore.records_add {α : Type} (store : ResidentStore α) (term : Term α)
    (atoms : AtomStore α) : (store.add term atoms).2.2.records = atoms.records := by
  have inserted := store.components.records_insert store.size term atoms
  unfold add
  cases store.phase with
  | ready => rfl
  | closed => rfl
  | grounding =>
      dsimp only
      cases atoms.checkAll term.atoms with
      | error fault => rfl
      | ok _ =>
          dsimp only
          generalize store.components.insert store.size term atoms = outcome at inserted ⊢
          obtain ⟨_ | key, components, joined⟩ := outcome <;> exact inserted

namespace GroundingSession

variable {session : GroundingSession Single}

/-- No call brings an invalid value. -/
theorem valid_respond (valid : session.atoms.Valid) (call : ResidentCall Single) :
    (session.respond call).2.atoms.Valid := by
  cases call with
  | add term =>
      have records := session.store.records_add term session.atoms
      unfold AtomStore.Valid
      simp only [respond, add, records]
      exact valid
  | finish =>
      simp only [respond]
      cases session.store.finish <;> exact valid
  | setWeight rule weight =>
      simp only [respond]
      cases session.store.setWeight rule weight <;> exact valid
  | clear =>
      simp only [respond]
      cases session.store.clear <;> exact valid
  | close => exact valid
  | get index => exact valid
  | sweep seed counts => exact valid
  | changeAtoms change => exact valid.change change

theorem valid_performAll (calls : List (ResidentCall Single)) :
    (performAll respond (opened : GroundingSession Single) calls).2.atoms.Valid := by
  have step (session : GroundingSession Single) (call : ResidentCall Single)
      (valid : session.atoms.Valid) := valid_respond valid call
  have noRecords : (opened : GroundingSession Single).atoms.Valid := by
    simp [AtomStore.Valid, opened, AtomStore.empty]
  exact performAll_invariant step noRecords calls

/-- A cleared session with a reset partition is a new one with the same records. -/
theorem performAll_clear_reset (cleared : (session.respond .clear).1 = .done (.ok ()))
    {fresh : AtomStore Single}
    (built : AtomStore.ofRecords session.atoms.records.toList = .ok fresh) :
    (performAll respond session [.clear, .changeAtoms .resetPartition]).2 = ⟨.empty, fresh⟩ := by
  have reset := AtomStore.resetPartition_eq built
  simp only [performAll, respond, ResidentStore.clear] at cleared ⊢
  cases phase : session.store.phase with
  | closed =>
      rw [phase] at cleared
      cases cleared
  | _ => exact congrArg (GroundingSession.mk .empty) reset

end GroundingSession

end HingeLoss
