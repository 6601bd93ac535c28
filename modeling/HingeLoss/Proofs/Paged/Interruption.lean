import HingeLoss.Proofs.Paged.Permutation

/-! Sweeps that are cancelled and taken up again lend what they owe, cut between two pages. -/

namespace HingeLoss

namespace PagedStore

/-- A request for the next term while the token has fired or rests. -/
def request (folder : FoundFolder) (store : PagedStore) (cancelled : Bool) :
    Except (StoreFault Single) (Option (Term Single)) × PagedStore :=
  store.nextTerm cancelled folder

/-- The terms among the answers to requests. -/
def lentTerms (answers : List (Except (StoreFault Single) (Option (Term Single)))) :
    List (Term Single) :=
  answers.filterMap fun answer => answer.toOption.join

variable {folder : FoundFolder} {store last : PagedStore} {rest : List (Term Single)}
  {parts : List (List (Term Single))}

/-- A request lends what comes next, or it comes to a page that the token refuses or that is not
there, and nothing changes. -/
theorem Owes.next (owes : Owes folder last store rest parts) (cancelled : Bool) :
    (rest = [] ∧ store.request folder cancelled = (.ok none, store)) ∨
      ∃ term next later others, store.request folder cancelled = (.ok (some term), next) ∧
        Owes folder last next later others ∧
        (rest = term :: later ∧ parts = others ∨
          rest = [] ∧ parts = (term :: later) :: others) := by
  cases owes with
  | ended none => exact .inl ⟨rfl, none cancelled⟩
  | lends lent later => exact .inr ⟨_, _, _, _, lent cancelled, later, .inl ⟨rfl, rfl⟩⟩
  | enters refused entered later =>
      cases cancelled with
      | true => exact .inl ⟨rfl, refused⟩
      | false => exact .inr ⟨_, _, _, _, entered, later, .inr ⟨rfl, rfl⟩⟩

/-- Requests under any tokens lend the first of what is owed, and the page that they stop in is the
last one that they have entered. -/
theorem Owes.requests (owes : Owes folder last store rest parts) (tokens : List Bool) :
    let asked := performAll (request folder) store tokens
    (∀ answer ∈ asked.1, answer.isOk = true) ∧
      ∃ entered later, Owes folder last asked.2 later (parts.drop entered) ∧
        lentTerms asked.1 ++ later = rest ++ (parts.take entered).flatten ∧
        ∀ fewer < entered,
          (rest ++ (parts.take fewer).flatten).length < (lentTerms asked.1).length := by
  induction tokens generalizing store rest parts with
  | nil => exact ⟨nofun, 0, rest, owes, by simp [lentTerms, performAll], nofun⟩
  | cons cancelled tokens inductionHypothesis =>
      rw [performAll_cons]
      rcases owes.next cancelled with
        ⟨rfl, same⟩ | ⟨term, next, later, others, same, owes, place⟩
      · rw [same]
        exact ⟨List.forall_mem_cons.mpr ⟨rfl, (inductionHypothesis owes).1⟩,
          (inductionHypothesis owes).2⟩
      · rw [same]
        obtain ⟨granted, entered, left, owing, lent, least⟩ := inductionHypothesis owes
        refine ⟨List.forall_mem_cons.mpr ⟨rfl, granted⟩, ?_⟩
        have counted (answers : List (Except (StoreFault Single) (Option (Term Single)))) :
            lentTerms (.ok (some term) :: answers) = term :: lentTerms answers := rfl
        simp only [counted, List.length_cons]
        rcases place with ⟨rfl, rfl⟩ | ⟨rfl, rfl⟩
        · refine ⟨entered, left, owing, congrArg (term :: ·) lent, fun fewer smaller => ?_⟩
          exact Nat.succ_lt_succ (least fewer smaller)
        · -- one more page has been entered, and its first term lent
          refine ⟨entered + 1, left, owing, congrArg (term :: ·) lent, fun fewer smaller => ?_⟩
          cases fewer with
          | zero => exact Nat.succ_pos _
          | succ fewer => exact Nat.succ_lt_succ (least fewer (Nat.lt_of_succ_lt_succ smaller))

end PagedStore

/-- Cancelling a sweep cuts it between two pages and loses nothing: once the token is reset it goes
on with the next page, up to the store that the uncancelled sweep comes to. -/
theorem cancelled_sweep_resumes (settings : Paging) (directory : Path) (owned : Bool)
    (folder : FoundFolder) (room : 0 < settings.pageTerms) (calls : List PagedCall)
    (undisturbed : Throughout PagedSession.respond PagedSession.Undisturbed
      (.opened settings directory owned folder) calls) :
    let run := performAll PagedSession.respond (.opened settings directory owned folder) calls
    let store := run.2.store
    let stream (store : PagedStore) (cancelled : Bool) : PagedStream :=
      ⟨store, run.2.folder, cancelled⟩
    store.phase = .ready →
      ∃ (pages parts : List (List (Term Single))) (begun last : PagedStore),
        pages.map List.length = store.pageSizes.toList ∧
        pages.flatten = (notes PagedCall.note [] calls run.1).map store.override ∧
        store.beginSweep = .ok begun ∧ begun.cursor.pages.Perm (List.range pages.length) ∧
        List.Forall₂ (fun page part => part.Perm (pages.getD page [])) begun.cursor.pages parts ∧
        TermStream.Drains (stream begun false) parts.flatten (stream last false) ∧
        ∀ tokens,
          let asked := performAll (PagedStore.request run.2.folder) begun tokens
          let lent := PagedStore.lentTerms asked.1
          (∀ answer ∈ asked.1, answer.isOk = true) ∧
            ∃ entered rest stopped, lent ++ rest = (parts.take entered).flatten ∧
              (∀ fewer < entered, (parts.take fewer).flatten.length < lent.length) ∧
              TermStream.Drains (stream asked.2 true) rest (stream stopped true) ∧
              stopped.nextTerm true run.2.folder = (.ok none, stopped) ∧
              TermStream.Drains (stream stopped false) (parts.drop entered).flatten
                (stream last false) ∧
              TermStream.Drains (stream asked.2 false) (rest ++ (parts.drop entered).flatten)
                (stream last false) := by
  intro run store stream ready
  obtain ⟨pages, intact⟩ := PagedSession.stands_performAll room undisturbed
  obtain ⟨begun, parts, last, began, owes, drawn, -, lends⟩ :=
    (intact.replayable ready).owes_begin
  have written : (pages.map (List.map store.override)).flatten =
      (notes PagedCall.note [] calls run.1).map store.override := by
    rw [← List.map_flatten]
    exact intact.written ready
  refine ⟨pages.map (List.map store.override), parts, begun, last, ?_, written, began, ?_, ?_,
    owes.drains, fun tokens => ?_⟩
  · rw [intact.shelved.sizes, List.map_map]
    exact List.map_congr_left fun page _ => List.length_map _
  · rwa [List.length_map]
  · refine lends.imp fun page part lent => ?_
    rw [PagedStore.getD_map_override]
    exact lent.1
  · obtain ⟨granted, entered, rest, owing, lent, least⟩ := owes.requests tokens
    obtain ⟨stopped, stops, refused, later⟩ := owing.stops
    exact ⟨granted, entered, rest, stopped, lent, least, stops, refused, later.drains,
      owing.drains⟩

/-- Two pages of two terms and one of a single term, shuffled in every way. The token fires after
the third term, and again after it has been reset for one term. -/
theorem cancelled_sweep_resumes_sample :
    let term (rule : UInt32) : Term Single := ⟨⟨rule⟩, .linear, .soft 1, 0, [⟨0⟩], [1]⟩
    let settings : Paging := { pageTerms := 2 }
    let calls : List PagedCall :=
      [.changeAtoms (.register ⟨0, false⟩), .add (term 0), .add (term 1), .add (term 2),
        .add (term 3), .add (term 4), .finish]
    let run := performAll PagedSession.respond
      (.opened settings (Path.ofText "pages") true (.ok [])) calls
    ∃ begun stopped rest others last, run.2.store.beginSweep = .ok begun ∧
      let asked := performAll (PagedStore.request run.2.folder) begun
        [false, false, false, true, true, false, true]
      TermStream.Drains (⟨asked.2, run.2.folder, true⟩ : PagedStream) rest stopped ∧
      TermStream.Drains (⟨stopped.store, run.2.folder, false⟩ : PagedStream) others last ∧
      (PagedStore.lentTerms asked.1 ++ rest ++ others).Perm
        [term 0, term 1, term 2, term 3, term 4] := by
  intro term settings calls run
  have ready : run.2.store.phase = .ready := by decide +kernel
  have shown : (notes PagedCall.note [] calls run.1).map run.2.store.override =
      [term 0, term 1, term 2, term 3, term 4] := by decide +kernel
  have wellFormed (rule : UInt32) : (term rule).WellFormed :=
    ⟨List.cons_ne_nil _ _, rfl, (by decide : 1 ≤ Term.maxArity)⟩
  have undisturbed : Throughout PagedSession.respond PagedSession.Undisturbed
      (.opened settings (Path.ofText "pages") true (.ok [])) calls := by
    refine ⟨?_, ?_, ?_, ?_, ?_, ?_, ?_, trivial⟩ <;>
      simp [PagedSession.Undisturbed, PagedCall.terms, wellFormed]
  obtain ⟨pages, parts, begun, last, -, written, began, drawn, lends, -, resumes⟩ :=
    cancelled_sweep_resumes settings _ true (.ok []) (by decide) calls undisturbed ready
  obtain ⟨-, entered, rest, stopped, lent, -, stops, -, others, -⟩ :=
    resumes [false, false, false, true, true, false, true]
  have shuffled {claim : Prop} (sequential : true = false) : claim := Bool.noConfusion sequential
  have pageWise : PageWise true true pages parts.flatten :=
    ⟨begun.cursor.pages, parts, drawn, shuffled, lends.imp fun _ _ perm => ⟨perm, shuffled⟩, rfl⟩
  refine ⟨begun, _, rest, _, _, began, stops, others, ?_⟩
  rw [lent, ← List.flatten_append, List.take_append_drop, ← shown, ← written]
  exact pageWise.perm

end HingeLoss
