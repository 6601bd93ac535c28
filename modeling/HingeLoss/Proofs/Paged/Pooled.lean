import HingeLoss.Proofs.Page.Indexed
import HingeLoss.Proofs.Paged.Reached
import HingeLoss.Proofs.Paged.Session

/-! A store calls its pool through the operations of a pool and nothing else. -/

namespace HingeLoss

namespace TermPool

/-- The later pool is what some calls leave of the earlier one. -/
def Becomes (before after : TermPool) : Prop :=
  ∃ uses, (performAll respond before uses).2 = after

theorem becomes_self (pool : TermPool) : pool.Becomes pool := ⟨[], rfl⟩

theorem becomes_respond (pool : TermPool) (call : PoolCall) :
    pool.Becomes (pool.respond call).2 :=
  ⟨[call], rfl⟩

theorem Becomes.trans {first second third : TermPool} (before : first.Becomes second)
    (later : second.Becomes third) : first.Becomes third := by
  obtain ⟨uses, rfl⟩ := before
  obtain ⟨more, rfl⟩ := later
  exact ⟨uses ++ more, by rw [performAll_append]⟩

theorem becomes_push {pool filled : TermPool} {term : Term Single}
    (pushed : pool.push term = .ok filled) : pool.Becomes filled := by
  have becomes := pool.becomes_respond (.push term)
  rwa [respond, pushed] at becomes

theorem becomes_fill {pool taken : TermPool} {slot : Term Single}
    (next : pool.nextSlot = .ok (slot, taken)) (overwrite : Term Single → Term Single) :
    pool.Becomes (taken.fill (overwrite slot)) := by
  have becomes := pool.becomes_respond (.overwriteNext overwrite)
  rwa [respond, next] at becomes

end TermPool

namespace Page

open TermPool

theorem becomes_decodeRecords (path : String) (index count : Nat) (bytes : Bytes)
    (pool : TermPool) : pool.Becomes (decodeRecords path index count bytes pool).2 := by
  induction count generalizing index bytes pool with
  | zero => exact pool.becomes_self
  | succ count inductionHypothesis =>
      rw [decodeRecords_succ]
      cases next : pool.nextSlot with
      | error fault => exact pool.becomes_self
      | ok found =>
          obtain ⟨slot, taken⟩ := found
          have filled := becomes_fill next fun slot => (Term.decodeInto slot bytes).2.1
          dsimp only at filled ⊢
          generalize Term.decodeInto slot bytes = decoded at filled ⊢
          obtain ⟨_ | _, slot, rest⟩ := decoded
          · exact filled
          · exact filled.trans (inductionHypothesis _ _ _)

theorem becomes_decode {path : String} {bytes : Bytes} {pool left : TermPool}
    {answer : Except PageFault Nat} (decoded : decode path bytes pool = (answer, left)) :
    pool.Becomes left := by
  unfold decode at decoded
  split at decoded
  · rename_i rest
    dsimp only at decoded
    split at decoded
    · cases decoded
      exact pool.becomes_self
    · split at decoded
      · cases decoded
        exact pool.becomes_self
      · split at decoded
        · cases decoded
          exact pool.becomes_self
        · have filled {terms : Nat} {answer : Except PageFault Bytes} {left : TermPool}
              (records : decodeRecords path 0 terms rest pool.clear = (answer, left)) :
              pool.Becomes left := by
            have becomes := becomes_decodeRecords path 0 terms rest pool.clear
            rw [records] at becomes
            exact (pool.becomes_respond .clear).trans becomes
          split at decoded
          all_goals
            rename_i records
            cases decoded
            exact filled records
  · cases decoded
    exact pool.becomes_self

theorem becomes_load (path : String) (bytes : Bytes) (pool : TermPool) :
    pool.Becomes (load path bytes pool).2 := by
  unfold load
  split
  · exact pool.becomes_self
  · generalize decoded : decode path bytes pool = outcome
    obtain ⟨_ | held, left⟩ := outcome
    · exact (becomes_decode decoded).trans (left.becomes_respond .clear)
    · exact becomes_decode decoded

theorem becomes_read (directory : Path) (index : Nat) (folder : FoundFolder) (pool : TermPool)
    (traffic : Traffic) : pool.Becomes (read directory index folder pool traffic).2.1 := by
  unfold read
  split
  · exact pool.becomes_self
  · rename_i bytes fetched
    have filled := becomes_load (path directory index) bytes pool
    split
    · rename_i loaded
      rwa [loaded] at filled
    · rename_i loaded
      rwa [loaded] at filled

end Page

namespace PagedStore

variable (store : PagedStore)

theorem becomes_append (term : Term Single) (atoms : AtomStore Single) :
    store.pool.Becomes (store.append term atoms).2.1.pool := by
  unfold append
  split
  · exact store.pool.becomes_self
  · dsimp only
    split
    · exact store.pool.becomes_self
    · rename_i pushed
      exact TermPool.becomes_push pushed

theorem becomes_flush {store base : PagedStore} {folder left : FoundFolder}
    (flushed : store.flush folder = (.ok base, left)) : store.pool.Becomes base.pool := by
  rcases store.flush_cases folder with ⟨-, same⟩ | ⟨fault, _, -, same⟩ | ⟨-, bytes, _, -, same⟩
  · rw [flushed] at same
    cases same
    exact store.pool.becomes_self
  · rw [flushed] at same
    cases same
  · rw [flushed] at same
    cases same
    exact store.pool.becomes_respond .clear

theorem becomes_add (term : Term Single) (atoms : AtomStore Single) (folder : FoundFolder) :
    store.pool.Becomes (store.add term atoms folder).2.1.pool := by
  rcases store.add_cases term atoms folder with
    ⟨fault, left, same, -⟩ | ⟨-, -, base, left, made, same⟩
  · rw [same]
    exact store.pool.becomes_self
  · rw [same]
    rcases made with ⟨-, rfl, -⟩ | flushed
    · exact base.becomes_append term atoms
    · exact (becomes_flush flushed).trans (base.becomes_append term atoms)

theorem becomes_readPage (page : Nat) (folder : FoundFolder) :
    store.pool.Becomes (store.readPage page folder).2.pool := by
  have filled := Page.becomes_read store.directory page folder store.pool store.traffic
  rw [readPage_eq]
  generalize Page.read store.directory page folder store.pool store.traffic = read at filled ⊢
  obtain ⟨_ | held, pool, traffic⟩ := read
  · exact filled
  · dsimp only at filled ⊢
    split
    · exact filled.trans (pool.becomes_respond .clear)
    · exact filled.trans (pool.becomes_respond (.mapLive store.override))

theorem becomes_advance (cancelled : Bool) (folder : FoundFolder) (pages : List Nat) :
    store.pool.Becomes (advance cancelled folder pages store).2.pool := by
  induction pages generalizing store with
  | nil => exact store.pool.becomes_self
  | cons page rest inductionHypothesis =>
      have entered : store.pool.Becomes
          (enterPage { store with cursor := ⟨rest, []⟩ } page folder).2.pool := by
        unfold enterPage
        split
        · exact store.pool.becomes_self
        · exact becomes_readPage { store with cursor := ⟨rest, []⟩ } page folder
      unfold advance
      split
      · exact store.pool.becomes_self
      · generalize enterPage { store with cursor := ⟨rest, []⟩ } page folder = entering at entered ⊢
        obtain ⟨_ | _, after⟩ := entering
        · exact entered
        · dsimp only
          split
          · exact entered.trans (inductionHypothesis after.orderTerms)
          · exact entered

theorem becomes_nextTerm (cancelled : Bool) (folder : FoundFolder) :
    store.pool.Becomes (store.nextTerm cancelled folder).2.pool := by
  have lent (store : PagedStore) : store.lend.2.pool = store.pool := by
    obtain ⟨cursor, same⟩ := store.lend_keeps
    rw [same]
  have entered := store.becomes_advance cancelled folder store.cursor.pages
  unfold nextTerm
  split
  · exact store.pool.becomes_self
  · split
    · generalize advance cancelled folder store.cursor.pages store = advanced at entered ⊢
      obtain ⟨_ | _ | _, after⟩ := advanced
      · exact entered
      · exact entered
      · exact lent after ▸ entered
    · rw [lent]
      exact store.pool.becomes_self

end PagedStore

namespace PagedSession

variable (session : PagedSession)

theorem becomes_finish :
    session.store.pool.Becomes (session.respond .finish).2.store.pool := by
  simp only [respond]
  rcases session.store.finish_cases session.folder with
    ⟨fault, left, same, -⟩ | ⟨-, same⟩ | ⟨-, base, left, flushed, same⟩
  · rw [same]
    exact session.store.pool.becomes_self
  · rw [same]
    exact session.store.pool.becomes_self
  · rw [same]
    have becomes := PagedStore.becomes_flush flushed
    exact becomes

/-- Whatever is asked of a store, its pool is only called. -/
theorem becomes_respond (call : PagedCall) :
    session.store.pool.Becomes (session.respond call).2.store.pool := by
  have same := session.store.pool.becomes_self
  cases call with
  | add term => exact session.store.becomes_add term session.atoms session.folder
  | finish => exact session.becomes_finish
  | ground source steps =>
      let pass :=
        Grounding.start session.store session.atoms session.folder source session.cancelled
      exact @Grounding.trace_keeps (fun _ => True) pass []
        (fun _ after => session.store.pool.Becomes after.store.pool)
        (fun _ _ _ becomes => becomes) (fun _ after becomes => becomes.trans after.becomes_finish)
        (fun _ after term becomes _ =>
          becomes.trans (after.store.becomes_add term after.atoms after.folder)) steps
        same fun _ _ _ _ => trivial
  | nextTerm => exact session.store.becomes_nextTerm session.cancelled session.folder
  | beginSweep =>
      simp only [respond, PagedStore.beginSweep]
      cases session.store.ensureReady <;> exact same
  | setWeight rule weight =>
      simp only [respond]
      rcases session.store.setWeight_cases rule weight with ⟨fault, refused⟩ | ⟨-, -, reweighed⟩
      · rw [refused]
        exact same
      · rw [reweighed]
        exact session.store.pool.becomes_respond (.mapLive (Term.reweigh rule weight))
  | clear =>
      simp only [respond]
      rcases session.store.clear_cases session.folder with
        ⟨-, fault, refused⟩ | ⟨-, ⟨fault, left, -, refused⟩ | ⟨left, -, cleared⟩⟩
      · rw [refused]
        exact same
      · rw [refused]
        exact same
      · rw [cleared]
        exact session.store.pool.becomes_respond .clear
  | close =>
      simp only [respond]
      rcases session.store.close_cases session.folder with
        ⟨-, kept⟩ | ⟨-, ⟨fault, left, -, kept⟩ | ⟨answer, left, closed⟩⟩
      · rw [kept]
        exact same
      · rw [kept]
        exact same
      · rw [closed]
        exact session.store.pool.becomes_respond .clear
  | setToken cancelled => exact same
  | changeAtoms change => exact same
  | changeFolder folder => exact same

/-- The same holds of all calls after one another. -/
theorem becomes_performAll (calls : List PagedCall) :
    session.store.pool.Becomes (performAll respond session calls).2.store.pool :=
  @performAll_invariant _ _ _ respond (fun after => session.store.pool.Becomes after.store.pool)
    (fun after call becomes => becomes.trans (after.becomes_respond call)) _
    session.store.pool.becomes_self calls

end PagedSession

end HingeLoss
