import HingeLoss.Proofs.Page.Reuse
import HingeLoss.Proofs.Paged.Session

/-! What a store answers while it is grounding does not depend on what it keeps in memory. -/

namespace HingeLoss

namespace PagedStore

/-- The store with room for another number of recent pages, and with other recent pages, another
pool and other counters. -/
def vary (store : PagedStore) (cachePages : Nat) (recent : RecentPages) (pool : TermPool)
    (traffic : Traffic) : PagedStore :=
  { store with settings := { store.settings with cachePages }, recent, pool, traffic }

/-- The second store is the first one with other recent pages and other counters, and with a pool
that cannot be told apart. -/
def Varies (cachePages : Nat) (recent : RecentPages) (first second : PagedStore) : Prop :=
  ∃ pool traffic, second = first.vary cachePages recent pool traffic ∧ first.pool.Alike pool

/-- A store that is still to be swept as before. -/
structure Steady (store after : PagedStore) : Prop where
  settings : after.settings = store.settings
  recent : after.recent = store.recent
  cursor : after.cursor = store.cursor
  phase : after.phase = store.phase

variable {cachePages : Nat} {recent : RecentPages} {first second : PagedStore}

theorem Varies.flush (varies : Varies cachePages recent first second) (folder : FoundFolder) :
    (∃ fault left, first.flush folder = (.error fault, left) ∧
        second.flush folder = (.error fault, left)) ∨
      ∃ base other left, first.flush folder = (.ok base, left) ∧
        second.flush folder = (.ok other, left) ∧ Varies cachePages recent base other ∧
        first.Steady base := by
  obtain ⟨pool, traffic, rfl, alike⟩ := varies
  simp only [PagedStore.flush, vary, alike.isEmpty, alike.terms, alike.count]
  cases first.pool.isEmpty with
  | true =>
      exact .inr ⟨_, _, _, rfl, rfl, ⟨pool, traffic, rfl, alike⟩, ⟨rfl, rfl, rfl, rfl⟩⟩
  | false =>
      simp only [Bool.false_eq_true, if_false]
      generalize Page.save first.directory first.pageSizes.size first.pool.terms folder = saved
      obtain ⟨_ | bytes, left⟩ := saved
      · exact .inl ⟨_, _, rfl, rfl⟩
      · exact .inr ⟨_, _, _, rfl, rfl,
          ⟨pool.clear, traffic.recordWrite bytes, rfl, TermPool.alike_clear alike.capacity⟩,
          ⟨rfl, rfl, rfl, rfl⟩⟩

theorem Varies.append (varies : Varies cachePages recent first second) (term : Term Single)
    (atoms : AtomStore Single) :
    ∃ answer after other joined, first.append term atoms = (answer, after, joined) ∧
      second.append term atoms = (answer, other, joined) ∧
      Varies cachePages recent after other ∧ first.Steady after := by
  obtain ⟨pool, traffic, rfl, alike⟩ := varies
  simp only [PagedStore.append, vary, TermPool.push, alike.isFull, alike.overflow]
  generalize first.components.insert first.termCount term atoms = inserted
  obtain ⟨_ | key, components, joined⟩ := inserted
  · exact ⟨_, _, _, _, rfl, rfl, ⟨pool, traffic, rfl, alike⟩, ⟨rfl, rfl, rfl, rfl⟩⟩
  · cases first.pool.isFull with
    | true => exact ⟨_, _, _, _, rfl, rfl, ⟨pool, traffic, rfl, alike⟩, ⟨rfl, rfl, rfl, rfl⟩⟩
    | false =>
        exact ⟨_, _, _, _, rfl, rfl, ⟨pool.take.fill term, traffic, rfl, alike.take_fill term⟩,
          ⟨rfl, rfl, rfl, rfl⟩⟩

theorem Varies.needsFlush (varies : Varies cachePages recent first second) (length : Nat) :
    second.needsFlush length = first.needsFlush length := by
  obtain ⟨pool, traffic, rfl, alike⟩ := varies
  unfold PagedStore.needsFlush
  dsimp only [vary]
  rw [alike.isFull, alike.isEmpty]
  rfl

theorem Steady.trans {store base after : PagedStore} (before : store.Steady base)
    (later : base.Steady after) : store.Steady after :=
  ⟨later.settings.trans before.settings, later.recent.trans before.recent,
    later.cursor.trans before.cursor, later.phase.trans before.phase⟩

/-- An addition is answered alike and leaves the recent pages alone. -/
theorem Varies.add (varies : Varies cachePages recent first second) (term : Term Single)
    (atoms : AtomStore Single) (folder : FoundFolder) :
    ∃ answer after other joined left, first.add term atoms folder = (answer, after, joined, left) ∧
      second.add term atoms folder = (answer, other, joined, left) ∧
      Varies cachePages recent after other ∧ first.Steady after := by
  have needs := varies.needsFlush term.encodedLength
  have flushes := varies.flush folder
  have appends := varies.append term atoms
  have phase : second.phase = first.phase := by
    obtain ⟨pool, traffic, rfl, -⟩ := varies
    rfl
  have steady : first.Steady first := ⟨rfl, rfl, rfl, rfl⟩
  simp only [PagedStore.add, phase, needs]
  cases first.phase with
  | ready => exact ⟨_, _, _, _, _, rfl, rfl, varies, steady⟩
  | closed => exact ⟨_, _, _, _, _, rfl, rfl, varies, steady⟩
  | grounding =>
      dsimp only
      cases atoms.checkAll term.atoms with
      | error fault => exact ⟨_, _, _, _, _, rfl, rfl, varies, steady⟩
      | ok _ =>
          cases first.needsFlush term.encodedLength with
          | false =>
              obtain ⟨answer, after, other, joined, same, otherSame, varies, steady⟩ := appends
              simp only [Bool.false_eq_true, if_false, same, otherSame]
              exact ⟨_, _, _, _, _, rfl, rfl, varies, steady⟩
          | true =>
              rcases flushes with ⟨fault, left, same, otherSame⟩ |
                ⟨base, otherBase, left, same, otherSame, varies, steadyBase⟩
              · simp only [if_true, same, otherSame]
                exact ⟨_, _, _, _, _, rfl, rfl, varies, steady⟩
              · obtain ⟨answer, after, other, joined, appended, otherAppended, varies, steady⟩ :=
                  varies.append term atoms
                simp only [if_true, same, otherSame, appended, otherAppended]
                exact ⟨_, _, _, _, _, rfl, rfl, varies, steadyBase.trans steady⟩

/-- A sealing of a grounding store is answered alike and leaves the recent pages alone. -/
theorem Varies.finish (varies : Varies cachePages recent first second)
    (grounding : first.phase = .grounding) (folder : FoundFolder) :
    (∃ fault left, first.finish folder = (.error fault, left) ∧
        second.finish folder = (.error fault, left)) ∨
      ∃ after other left, first.finish folder = (.ok after, left) ∧
        second.finish folder = (.ok other, left) ∧ Varies cachePages recent after other ∧
        after.settings = first.settings ∧ after.recent = first.recent ∧
        after.cursor = .finished ∧ after.phase = .ready := by
  have flushes := varies.flush folder
  have phase : second.phase = first.phase := by
    obtain ⟨pool, traffic, rfl, -⟩ := varies
    rfl
  unfold PagedStore.finish
  rw [phase, grounding]
  dsimp only
  rcases flushes with ⟨fault, left, same, otherSame⟩ |
    ⟨base, otherBase, left, same, otherSame, ⟨pool, traffic, rfl, alike⟩, steady⟩
  · rw [same, otherSame]
    exact .inl ⟨_, _, rfl, rfl⟩
  · rw [same, otherSame]
    exact .inr ⟨_, _, _, rfl, rfl, ⟨pool, traffic, rfl, alike⟩, steady.settings, steady.recent, rfl,
      rfl⟩

section

variable (store : PagedStore) (cachePages : Nat) (recent : RecentPages) (pool : TermPool)
  (traffic : Traffic)

/-- Once it is sealed or closed, a store refuses additions whatever it keeps in memory. -/
theorem add_vary (notGrounding : store.phase ≠ .grounding) (term : Term Single)
    (atoms : AtomStore Single) (folder : FoundFolder) :
    ∃ fault, store.add term atoms folder = (.error fault, store, atoms, folder) ∧
      (store.vary cachePages recent pool traffic).add term atoms folder =
        (.error fault, store.vary cachePages recent pool traffic, atoms, folder) := by
  have phase : (store.vary cachePages recent pool traffic).phase = store.phase := rfl
  simp only [PagedStore.add, phase]
  cases state : store.phase with
  | grounding => exact absurd state notGrounding
  | ready => exact ⟨_, rfl, rfl⟩
  | closed => exact ⟨_, rfl, rfl⟩

theorem finish_vary (notGrounding : store.phase ≠ .grounding) (folder : FoundFolder) :
    (store.vary cachePages recent pool traffic).finish folder =
      ((store.finish folder).1.map (vary · cachePages recent pool traffic),
        (store.finish folder).2) := by
  have phase : (store.vary cachePages recent pool traffic).phase = store.phase := rfl
  simp only [PagedStore.finish, phase]
  cases state : store.phase with
  | grounding => exact absurd state notGrounding
  | ready => rfl
  | closed => rfl

theorem setWeight_vary (rule : RuleId) (weight : Weight Single) :
    (store.vary cachePages recent pool traffic).setWeight rule weight =
      (store.setWeight rule weight).map fun outcome =>
        (outcome.1, outcome.2.vary cachePages (recent.reweigh rule weight)
          (pool.mapLive (Term.reweigh rule weight)) traffic) := by
  have phase : (store.vary cachePages recent pool traffic).phase = store.phase := rfl
  simp only [PagedStore.setWeight, phase]
  cases state : store.phase with
  | closed => rfl
  | _ => cases weight.validate rule <;> simp [Except.map, vary, state]

theorem clear_vary (folder : FoundFolder) :
    (store.vary cachePages recent pool traffic).clear folder =
      ((store.clear folder).1.map (vary · cachePages recent.clear pool.clear traffic),
        (store.clear folder).2) := by
  have phase : (store.vary cachePages recent pool traffic).phase = store.phase := rfl
  have sizes : (store.vary cachePages recent pool traffic).pageSizes = store.pageSizes := rfl
  have directory : (store.vary cachePages recent pool traffic).directory = store.directory := rfl
  simp only [PagedStore.clear, phase, sizes, directory]
  cases store.phase with
  | closed => rfl
  | _ =>
      dsimp only
      generalize Page.removeAll store.directory (List.range store.pageSizes.size) folder = removed
      obtain ⟨_ | _, left⟩ := removed <;> rfl

theorem beginSweep_vary :
    (store.vary cachePages recent pool traffic).beginSweep =
      store.beginSweep.map (vary · cachePages recent pool traffic) := by
  have ready : (store.vary cachePages recent pool traffic).ensureReady = store.ensureReady := rfl
  simp only [PagedStore.beginSweep, ready]
  cases store.ensureReady <;> rfl

/-- A closing leaves the store as it is or closes it. -/
theorem close_vary (folder : FoundFolder) :
    (store.close folder).2.1 = store ∧
        (store.vary cachePages recent pool traffic).close folder =
          ((store.close folder).1, store.vary cachePages recent pool traffic,
            (store.close folder).2.2) ∨
      (store.close folder).2.1.phase = .closed ∧
        (store.close folder).2.1.settings = store.settings ∧
        (store.close folder).2.1.recent = store.recent.clear ∧
        (store.close folder).2.1.pool = store.pool.clear ∧
        (store.vary cachePages recent pool traffic).close folder = ((store.close folder).1,
          (store.close folder).2.1.vary cachePages recent.clear pool.clear traffic,
          (store.close folder).2.2) := by
  have phase : (store.vary cachePages recent pool traffic).phase = store.phase := rfl
  have sizes : (store.vary cachePages recent pool traffic).pageSizes = store.pageSizes := rfl
  have directory : (store.vary cachePages recent pool traffic).directory = store.directory := rfl
  have owned : (store.vary cachePages recent pool traffic).owned = store.owned := rfl
  simp only [PagedStore.close, phase, sizes, directory, owned]
  cases store.phase with
  | closed => exact .inl ⟨rfl, rfl⟩
  | _ =>
      dsimp only
      generalize Page.removeAll store.directory (List.range store.pageSizes.size) folder = removed
      obtain ⟨_ | _, left⟩ := removed
      · exact .inl ⟨rfl, rfl⟩
      · refine .inr ?_
        dsimp only
        cases store.owned with
        | false => exact ⟨rfl, rfl, rfl, rfl, rfl⟩
        | true => obtain ⟨_ | _, _, _⟩ := left <;> exact ⟨rfl, rfl, rfl, rfl, rfl⟩

end

end PagedStore

end HingeLoss
