import HingeLoss.Proofs.Paged.Reached
import HingeLoss.Proofs.Paged.Replay
import Mathlib.Data.List.Forall2

/-! Sweeps over pages that anything may happen to: no page is left behind without a fault. -/

namespace HingeLoss

/-- What a sweep goes through: a request that finds the folder as it then stands, or a new
weight. -/
inductive SweepEvent where
  | request (folder : FoundFolder)
  | setWeight (rule : RuleId) (weight : Weight Single)

/-- A request to a store with what it found, its answer, and the store after it. -/
structure SweepRequest where
  before : PagedStore
  folder : FoundFolder
  answer : Except (StoreFault Single) (Option (Term Single))
  store : PagedStore

namespace SweepRequest

/-- The request comes to a page of a number of terms, and these stand for it. -/
structure Finds (sizes : Array Nat) (page : Nat) (terms : List (Term Single))
    (request : SweepRequest) : Prop where
  found : request.before.Finds request.folder page terms
  counted : terms.length = sizes.getD page 0

/-- The request lends the term at a position of a page under its present weight, with other pages
still to be entered. -/
structure Lends (terms : List (Term Single)) (rest : List Nat) (position : Nat)
    (request : SweepRequest) : Prop where
  pages : request.store.cursor.pages = rest
  lent : ∃ term, terms[position]? = some term ∧
    request.answer = .ok (some (request.store.override term))

def isLent (request : SweepRequest) : Bool :=
  match request.answer with
  | .ok (some _) => true
  | _ => false

/-- The requests account for the pages that they move past, in their order. A page is lent whole,
one position after another, as its first request found it, or its only request gets a fault of its
file. The last page that was entered may be unfinished, and nothing is lent after the last page. -/
inductive Accounted (sizes : Array Nat) : List Nat → List SweepRequest → Prop
  | whole {page : Nat} {rest positions : List Nat} {terms : List (Term Single)}
      {first : SweepRequest} {lent later : List SweepRequest}
      (found : first.Finds sizes page terms)
      (drawn : positions.Perm (List.range terms.length))
      (all : List.Forall₂ (Lends terms rest) positions (first :: lent))
      (others : Accounted sizes rest later) :
      Accounted sizes (page :: rest) (first :: lent ++ later)
  | refused {page : Nat} {rest : List Nat} {request : SweepRequest} {later : List SweepRequest}
      (fault : PageFault) (answered : request.answer = .error (.page fault))
      (left : request.store.cursor.pages = rest) (others : Accounted sizes rest later) :
      Accounted sizes (page :: rest) (request :: later)
  | unfinished {page : Nat} {rest positions : List Nat} {terms : List (Term Single)}
      {first : SweepRequest} {lent : List SweepRequest}
      (found : first.Finds sizes page terms)
      (drawn : positions.Perm (List.range terms.length))
      (fewer : (first :: lent).length < positions.length)
      (some : List.Forall₂ (Lends terms rest) (positions.take (first :: lent).length)
        (first :: lent)) :
      Accounted sizes (page :: rest) (first :: lent)
  | stopped (order : List Nat) : Accounted sizes order []
  | ended {requests : List SweepRequest}
      (none : ∀ request ∈ requests, request.answer = .ok none) : Accounted sizes [] requests

theorem Lends.isLent {terms : List (Term Single)} {rest : List Nat} {position : Nat}
    {request : SweepRequest} (lends : request.Lends terms rest position) :
    request.isLent = true := by
  obtain ⟨term, -, answered⟩ := lends.lent
  rw [SweepRequest.isLent, answered]

theorem isLent_of_forall₂ {terms : List (Term Single)} {rest positions : List Nat}
    {lent : List SweepRequest} (all : List.Forall₂ (Lends terms rest) positions lent) :
    ∀ request ∈ lent, request.isLent = true := by
  induction all with
  | nil => simp
  | cons lends _ inductionHypothesis =>
      exact List.forall_mem_cons.mpr ⟨lends.isLent, inductionHypothesis⟩

/-- A request that lends nothing comes after requests that all lend something. -/
theorem exists_of_split {lent later before after : List SweepRequest} {request : SweepRequest}
    (lentAll : ∀ request ∈ lent, request.isLent = true) (notLent : request.isLent = false)
    (split : lent ++ later = before ++ request :: after) :
    ∃ middle, before = lent ++ middle ∧ later = middle ++ request :: after := by
  rcases List.append_eq_append_iff.mp split with ⟨middle, same, split⟩ | ⟨middle, same, split⟩
  · exact ⟨middle, same, split⟩
  · cases middle with
    | nil => exact ⟨[], by simpa using same.symm, by simpa using split.symm⟩
    | cons first others =>
        obtain ⟨rfl, -⟩ := List.cons.inj split
        have member : request ∈ lent := by simp [same]
        rw [lentAll request member] at notLent
        cases notLent

/-- Up to the end of a sweep without a fault, every term of every page has been lent. -/
theorem Accounted.count_isLent {sizes : Array Nat} {order : List Nat} {requests : List SweepRequest}
    (accounted : Accounted sizes order requests) {before after : List SweepRequest}
    {request : SweepRequest} (split : requests = before ++ request :: after)
    (finished : request.answer = .ok none)
    (noFault : ∀ earlier ∈ before, ∀ fault, earlier.answer ≠ .error fault) :
    before.countP isLent = (order.map (sizes.getD · 0)).sum := by
  have notLent : request.isLent = false := by rw [isLent, finished]
  induction accounted generalizing before with
  | @whole page rest positions terms first lent later found drawn all others inductionHypothesis =>
      have lentAll := isLent_of_forall₂ all
      obtain ⟨middle, rfl, laterSplit⟩ := exists_of_split lentAll notLent split
      have counted : (first :: lent).countP isLent = sizes.getD page 0 := by
        rw [List.countP_eq_length.mpr lentAll, ← all.length_eq, drawn.length_eq,
          List.length_range, found.counted]
      have later := inductionHypothesis laterSplit fun earlier member =>
        noFault earlier (List.mem_append_right _ member)
      rw [List.countP_append, counted, later, List.map_cons, List.sum_cons]
  | refused fault answered _ _ _ =>
      cases before with
      | nil =>
          obtain ⟨rfl, -⟩ := List.cons.inj split
          rw [answered] at finished
          cases finished
      | cons first others =>
          obtain ⟨rfl, -⟩ := List.cons.inj split
          exact absurd answered (noFault _ List.mem_cons_self _)
  | unfinished _ _ _ some =>
      have member : request ∈ before ++ request :: after := by simp
      rw [isLent_of_forall₂ some request (split ▸ member)] at notLent
      cases notLent
  | stopped order => simp at split
  | ended none =>
      rw [List.map_nil, List.sum_nil, List.countP_eq_zero]
      intro earlier member
      have answered := none earlier (split ▸ List.mem_append_left _ member)
      simp [isLent, answered]

/-- The rest of a sweep that has positions left of the page entered last. -/
def Underway (sizes : Array Nat) (terms : List (Term Single)) (positions rest : List Nat)
    (requests : List SweepRequest) : Prop :=
  (requests.length < positions.length ∧
      List.Forall₂ (Lends terms rest) (positions.take requests.length) requests) ∨
    ∃ lent later, requests = lent ++ later ∧ List.Forall₂ (Lends terms rest) positions lent ∧
      Accounted sizes rest later

variable {sizes : Array Nat} {terms : List (Term Single)} {page position : Nat}
  {positions rest : List Nat} {request : SweepRequest} {requests : List SweepRequest}

theorem underway_nil_iff :
    Underway sizes terms [] rest requests ↔ Accounted sizes rest requests := by
  constructor
  · rintro (⟨fewer, -⟩ | ⟨lent, later, rfl, none, accounted⟩)
    · simp at fewer
    · obtain rfl := List.forall₂_nil_left_iff.mp none
      exact accounted
  · exact fun accounted => .inr ⟨[], requests, rfl, .nil, accounted⟩

theorem Underway.cons (lends : request.Lends terms rest position)
    (underway : Underway sizes terms positions rest requests) :
    Underway sizes terms (position :: positions) rest (request :: requests) := by
  rcases underway with ⟨fewer, some⟩ | ⟨lent, later, rfl, all, accounted⟩
  · exact .inl ⟨Nat.succ_lt_succ fewer, .cons lends some⟩
  · exact .inr ⟨request :: lent, later, rfl, .cons lends all, accounted⟩

/-- A page whose positions have been drawn is accounted for. -/
theorem Underway.accounted (found : request.Finds sizes page terms)
    (drawn : positions.Perm (List.range terms.length)) (someLeft : positions ≠ [])
    (underway : Underway sizes terms positions rest (request :: requests)) :
    Accounted sizes (page :: rest) (request :: requests) := by
  rcases underway with ⟨fewer, some⟩ | ⟨lent, later, split, all, accounted⟩
  · exact .unfinished found drawn fewer some
  · cases all with
    | nil => exact absurd rfl someLeft
    | cons lends others =>
        obtain ⟨rfl, rfl⟩ := List.cons.inj split
        exact .whole found drawn (.cons lends others) accounted

end SweepRequest

namespace PagedStore

open SweepRequest

/-- The requests of a sweep, with a token that does not fire. -/
def requests (store : PagedStore) : List SweepEvent → List SweepRequest
  | [] => []
  | .request folder :: later =>
      let (answer, after) := store.nextTerm false folder
      ⟨store, folder, answer, after⟩ :: after.requests later
  | .setWeight rule weight :: later =>
      match store.setWeight rule weight with
      | .error _ => store.requests later
      | .ok (_, after) => after.requests later

/-- A sealed store with whole pages, in a sweep that stays within them. -/
structure Sweeping (store : PagedStore) : Prop where
  phase : store.phase = .ready
  positive : ∀ size ∈ store.pageSizes.toList, 0 < size
  whole : store.recent.Whole store.pageSizes store.override
  pagesInRange : ∀ page ∈ store.cursor.pages, page < store.pageSizes.size
  positionsInRange : ∀ position ∈ store.cursor.terms, position < store.currentCount

theorem Sweeping.pagePositive {store : PagedStore} (sweeping : store.Sweeping) :
    ∀ page ∈ store.cursor.pages, 0 < store.pageSizes.getD page 0 := by
  intro page member
  have inRange := sweeping.pagesInRange page member
  rw [Array.getD_eq_getD_getElem?, Array.getElem?_eq_getElem inRange, Option.getD_some]
  exact sweeping.positive _ (Array.getElem_mem_toList inRange)

/-- The next position of the page entered last is lent. -/
theorem Sweeping.lend {store : PagedStore} (sweeping : store.Sweeping) (folder : FoundFolder)
    {position : Nat} {positions : List Nat} (left : store.cursor.terms = position :: positions) :
    ∃ term after, store.nextTerm false folder = (.ok (some term), after) ∧ after.Sweeping ∧
      store.currentTerms[position]? = some term ∧
      after = { store with cursor := ⟨store.cursor.pages, positions⟩ } := by
  have inRange := sweeping.positionsInRange
  rw [left, List.forall_mem_cons] at inRange
  have found := List.getElem?_eq_getElem (store.currentCount_eq ▸ inRange.1)
  refine ⟨_, { store with cursor := ⟨store.cursor.pages, positions⟩ }, ?_,
    { sweeping with positionsInRange := inRange.2 }, found, rfl⟩
  simp only [PagedStore.nextTerm, ensureReady_of_ready sweeping.phase, left, List.isEmpty_cons,
    Bool.false_eq_true, if_false, PagedStore.lend, currentTerm?_eq, found]

/-- The next page is refused, or its positions are drawn and the request lends the first of them. -/
theorem Sweeping.enter {store : PagedStore} (sweeping : store.Sweeping) (folder : FoundFolder)
    {page : Nat} {rest : List Nat} (cursor : store.cursor = ⟨page :: rest, []⟩) :
    (∃ fault after, store.nextTerm false folder = (.error (.page fault), after) ∧
        after.Sweeping ∧ after.pageSizes = store.pageSizes ∧ after.cursor = ⟨rest, []⟩) ∨
      ∃ (entered : PagedStore) (positions : List Nat),
        store.nextTerm false folder = entered.nextTerm false folder ∧ entered.Sweeping ∧
        entered.pageSizes = store.pageSizes ∧ entered.cursor = ⟨rest, positions⟩ ∧
        positions ≠ [] ∧ positions.Perm (List.range (store.pageSizes.getD page 0)) ∧
        entered.overrides = store.overrides ∧ store.Enters folder page entered := by
  have pagePositive := sweeping.pagePositive
  have pagesInRange := sweeping.pagesInRange
  rw [cursor, List.forall_mem_cons] at pagePositive pagesInRange
  obtain ⟨pool, recent, traffic, left, whole, answered⟩ :=
    enterPage_cases { store with cursor := ⟨rest, []⟩ } page folder sweeping.whole
  generalize entering : enterPage { store with cursor := ⟨rest, []⟩ } page folder = outcome
    at left answered
  obtain ⟨answer, after⟩ := outcome
  dsimp only at left answered
  subst left
  rcases answered with ⟨fault, rfl⟩ | ⟨rfl, enters⟩
  · left
    refine ⟨fault, { store with cursor := ⟨rest, []⟩, pool, recent, traffic }, ?_, { sweeping with
      whole := whole
      pagesInRange := pagesInRange.2
      positionsInRange := fun _ member => absurd member List.not_mem_nil }, rfl, rfl⟩
    simp only [PagedStore.nextTerm, ensureReady_of_ready sweeping.phase, cursor, List.isEmpty_nil,
      if_true, advance, Bool.false_eq_true, if_false, entering]
  · right
    let entered : PagedStore := { store with cursor := ⟨rest, []⟩, pool, recent, traffic }
    have counted : entered.currentCount = store.pageSizes.getD page 0 := enters.currentCount
    have drawn : entered.orderTerms.cursor.terms.Perm
        (List.range (store.pageSizes.getD page 0)) := by
      rw [← counted]
      exact arrange_perm _ _ _ _
    have someLeft : entered.orderTerms.cursor.terms.isEmpty = false := by
      rw [List.isEmpty_eq_false_iff, ← List.length_pos_iff, drawn.length_eq, List.length_range]
      exact pagePositive.1
    have entersStore : store.Enters folder page entered.orderTerms := by
      obtain ⟨terms, found, size, current⟩ := enters
      refine ⟨terms, ?_, size, current⟩
      cases found with
      | kept kept => exact .kept kept
      | file missing fetched isImage => exact .file missing fetched isImage
    refine ⟨entered.orderTerms, entered.orderTerms.cursor.terms, ?_, { sweeping with
      whole := whole
      pagesInRange := pagesInRange.2
      positionsInRange := ?_ }, rfl, rfl, List.isEmpty_eq_false_iff.mp someLeft, drawn, rfl,
      entersStore⟩
    · have ready : entered.orderTerms.ensureReady = .ok () := ensureReady_of_ready sweeping.phase
      simp only [PagedStore.nextTerm, ensureReady_of_ready sweeping.phase, cursor,
        List.isEmpty_nil, if_true, advance, Bool.false_eq_true, if_false, entering, ready]
      simp only [entered] at someLeft ⊢
      simp only [someLeft, Bool.false_eq_true, if_false]
    · intro position member
      have inRange := List.mem_range.mp (drawn.mem_iff.mp member)
      exact counted ▸ inRange

/-- A new weight changes nothing that a sweep has left. -/
theorem Sweeping.setWeight {store after : PagedStore} (sweeping : store.Sweeping) {rule : RuleId}
    {weight : Weight Single} {count : Nat}
    (reweighed : store.setWeight rule weight = .ok (count, after)) :
    after.Sweeping ∧ after = store.reweighed rule weight := by
  simp only [PagedStore.setWeight, sweeping.phase, Except.map] at reweighed
  split at reweighed
  · cases reweighed
  · cases reweighed
    refine ⟨⟨rfl, sweeping.positive, whole_reweighed sweeping.whole rule weight,
      sweeping.pagesInRange, fun position member => ?_⟩, ?_⟩
    · have inRange := sweeping.positionsInRange position member
      simp only [currentCount, lendsFromPool, RecentPages.capacity_reweigh,
        RecentPages.current_reweigh, Array.size_map] at inRange ⊢
      exact inRange
    · rw [PagedStore.reweighed, sweeping.phase]

/-- The page entered last, if positions of it are left, holds some terms under their present
weights. -/
def Shows (store : PagedStore) (terms : List (Term Single)) : Prop :=
  store.cursor.terms ≠ [] → store.currentTerms = terms.map store.override

/-- A request with positions left lends the first of them, and the later requests go on from
there. -/
theorem Sweeping.underway_lend {store : PagedStore} (sweeping : store.Sweeping)
    (folder : FoundFolder) {terms : List (Term Single)} (shows : store.Shows terms)
    (someLeft : store.cursor.terms ≠ []) {later : List SweepEvent}
    (goesOn : ∀ after : PagedStore, after.Sweeping → ∀ terms, after.Shows terms →
      Underway after.pageSizes terms after.cursor.terms after.cursor.pages
        (after.requests later)) (before : PagedStore) :
    ∃ answer after, store.nextTerm false folder = (answer, after) ∧
      Underway store.pageSizes terms store.cursor.terms store.cursor.pages
        (⟨before, folder, answer, after⟩ :: after.requests later) := by
  obtain ⟨position, positions, left⟩ := List.exists_cons_of_ne_nil someLeft
  obtain ⟨term, after, answered, stillSweeping, found, rfl⟩ := sweeping.lend folder left
  have current := shows someLeft
  refine ⟨_, _, answered, ?_⟩
  rw [current, List.getElem?_map, Option.map_eq_some_iff] at found
  obtain ⟨original, held, rfl⟩ := found
  rw [left]
  exact (goesOn _ stillSweeping terms fun _ => current).cons ⟨rfl, original, held, rfl⟩

/-- A request without positions left comes to the next page, or finds that there is none. -/
theorem Sweeping.accounted_enter {store : PagedStore} (sweeping : store.Sweeping)
    (folder : FoundFolder) (left : store.cursor.terms = []) {later : List SweepEvent}
    (goesOn : ∀ after : PagedStore, after.Sweeping → ∀ terms, after.Shows terms →
      Underway after.pageSizes terms after.cursor.terms after.cursor.pages
        (after.requests later)) :
    Accounted store.pageSizes store.cursor.pages (store.requests (.request folder :: later)) := by
  cases pages : store.cursor.pages with
  | nil =>
      have answered : store.nextTerm false folder = (.ok none, store) :=
        nextTerm_ends sweeping.phase left (.inr pages)
      have rest := goesOn store sweeping [] fun someLeft => absurd left someLeft
      rw [left, pages, underway_nil_iff] at rest
      simp only [requests, answered]
      refine .ended (List.forall_mem_cons.mpr ⟨rfl, ?_⟩)
      generalize store.requests later = others at rest
      cases rest with
      | stopped order => simp
      | ended none => exact none
  | cons page rest =>
      have cursor : store.cursor = ⟨page :: rest, []⟩ := by rw [← left, ← pages]
      rcases sweeping.enter folder cursor with
        ⟨fault, after, answered, stillSweeping, sizes, cursor⟩ |
        ⟨entered, positions, same, stillSweeping, sizes, cursor, someLeft, drawn, overrides,
          terms, found, counted, current⟩
      · have others := goesOn after stillSweeping [] fun someLeft => absurd (by rw [cursor]) someLeft
        rw [sizes, cursor, underway_nil_iff] at others
        simp only [requests, answered]
        exact .refused fault rfl (congrArg PageCursor.pages cursor) others
      · have shows : entered.Shows terms := fun _ => by
          rw [current]
          exact List.map_congr_left fun term _ => by rw [override_eq, override_eq, overrides]
        obtain ⟨answer, after, answered, lent⟩ :=
          stillSweeping.underway_lend folder shows (by rwa [cursor]) goesOn store
        rw [sizes, cursor] at lent
        simp only [requests, same, answered]
        exact lent.accounted ⟨found, counted⟩ (counted ▸ drawn) someLeft

/-- Whatever a sweep goes through, its requests account for what it had left. -/
theorem Sweeping.underway {store : PagedStore} (sweeping : store.Sweeping)
    (events : List SweepEvent) {terms : List (Term Single)} (shows : store.Shows terms) :
    Underway store.pageSizes terms store.cursor.terms store.cursor.pages
      (store.requests events) := by
  -- By induction on the events. What the cursor has left fixes what the later ones account for.
  induction events generalizing store terms with
  | nil =>
      cases left : store.cursor.terms with
      | nil => exact underway_nil_iff.mpr (.stopped _)
      | cons position positions => exact .inl ⟨Nat.succ_pos _, .nil⟩
  | cons event later inductionHypothesis =>
      cases event with
      | setWeight rule weight =>
          simp only [requests]
          split
          · exact inductionHypothesis sweeping shows
          · rename_i reweighed
            obtain ⟨stillSweeping, rfl⟩ := sweeping.setWeight reweighed
            refine inductionHypothesis stillSweeping fun someLeft => ?_
            rw [currentTerms_reweighed, shows someLeft, List.map_map]
            exact List.map_congr_left fun term _ =>
              (override_insert store (store.reweighed rule weight) rule weight rfl term).symm
      | request folder =>
          by_cases left : store.cursor.terms = []
          · rw [left, underway_nil_iff]
            exact sweeping.accounted_enter folder left fun _ swept _ => inductionHypothesis swept
          · obtain ⟨answer, after, answered, lent⟩ := sweeping.underway_lend folder shows left
              (fun _ swept _ => inductionHypothesis swept) store
            simpa only [requests, answered] using lent

theorem map_getD_range (sizes : Array Nat) :
    (List.range sizes.size).map (sizes.getD · 0) = sizes.toList := by
  apply List.ext_getElem
  · simp
  · intro index inRange _
    simp only [List.length_map, List.length_range] at inRange
    simp [Array.getD_eq_getD_getElem?, inRange]

/-- Whatever happens to the page files, a sweep lends each page whole, as the request that came to
it found it, or that request gets a fault. Without a fault every term has been lent at the end. -/
theorem sweep_accounted {store : PagedStore} (reached : store.Reached)
    (ready : store.phase = .ready) :
    ∃ begun, store.beginSweep = .ok begun ∧
      begun.cursor.pages.Perm (List.range store.pageSizes.size) ∧
      ∀ events, Accounted store.pageSizes begun.cursor.pages (begun.requests events) ∧
        ∀ before request after, begun.requests events = before ++ request :: after →
          request.answer = .ok none →
          (∀ earlier ∈ before, ∀ fault, earlier.answer ≠ .error fault) →
          before.countP isLent = store.termCount := by
  have consistent := reached.consistent
  obtain ⟨begun, began⟩ : ∃ begun, store.beginSweep = .ok begun := by
    rw [beginSweep, ensureReady_of_ready ready]
    exact ⟨_, rfl⟩
  obtain ⟨-, pages, generator, rfl, order⟩ := beginSweep_ok began
  refine ⟨_, began, order, fun events => ?_⟩
  have sweeping : Sweeping { store with cursor := ⟨pages, []⟩, generator } :=
    { phase := ready
      positive := consistent.positive
      whole := consistent.whole
      pagesInRange := fun page member => List.mem_range.mp (order.mem_iff.mp member)
      positionsInRange := fun _ member => absurd member List.not_mem_nil }
  have shows : Shows { store with cursor := ⟨pages, []⟩, generator } [] := (absurd rfl ·)
  have accounted := underway_nil_iff.mp (sweeping.underway events shows)
  refine ⟨accounted, fun before request after split finished noFault => ?_⟩
  rw [accounted.count_isLent split finished noFault, consistent.written ready,
    (order.map _).sum_nat, map_getD_range]

/-- Two terms on a page each, and whatever happens to the two pages during a sweep. -/
theorem sweep_accounted_sample :
    let first : Term Single := ⟨⟨0⟩, .linear, .soft 1, 0, [⟨0⟩], [1]⟩
    let second : Term Single := ⟨⟨1⟩, .squaredHinge, .hard, 1, [⟨0⟩], [1]⟩
    let atoms : AtomStore Single := ⟨#[⟨0, false⟩], .singletons 1, rfl⟩
    let one := (fresh (.sequential 1) (Path.ofText "pages") true).add first atoms (.ok [])
    let two := one.2.1.add second one.2.2.1 one.2.2.2
    ∃ store left begun, two.2.1.finish two.2.2.2 = (.ok store, left) ∧
      store.beginSweep = .ok begun ∧ store.pageSizes = #[1, 1] ∧
      ∀ events, Accounted #[1, 1] begun.cursor.pages (begun.requests events) := by
  intro first second atoms one two
  have reached : two.2.1.Reached := ((Reached.fresh _ _ _).add first atoms _).add second _ _
  have sizes : ((two.2.1.finish two.2.2.2).1.toOption.map fun store =>
      (store.phase, store.pageSizes)) = some (.ready, #[1, 1]) := by decide +kernel
  generalize finished : two.2.1.finish two.2.2.2 = outcome at sizes
  obtain ⟨_ | store, left⟩ := outcome
  · cases sizes
  · obtain ⟨ready, sizes⟩ := Prod.mk.inj (Option.some.inj sizes)
    obtain ⟨begun, began, -, accounted⟩ := sweep_accounted (reached.finish finished) ready
    exact ⟨store, left, begun, rfl, began, sizes, fun events => sizes ▸ (accounted events).1⟩

end PagedStore

end HingeLoss
