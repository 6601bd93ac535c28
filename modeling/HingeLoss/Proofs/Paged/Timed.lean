import HingeLoss.Proofs.Paged.Sweep
import HingeLoss.Proofs.Store.Stream

/-! A paged store that is swept while its token fires and anything happens to its folder. -/

namespace HingeLoss

namespace PagedStore

/-- The number of terms that a sweep has left. -/
def termsLeft (store : PagedStore) : Nat :=
  store.cursor.terms.length + (store.cursor.pages.map (store.pageSizes.getD · 0)).sum

variable {store begun : PagedStore}

/-- A sweep that begins in a consistent store has all of its terms left. -/
theorem Consistent.sweeping_begin (consistent : store.Consistent)
    (began : store.beginSweep = .ok begun) :
    begun.Sweeping ∧ begun.termsLeft = store.termCount ∧ begun.cursor.terms = [] := by
  obtain ⟨ready, pages, generator, rfl, order⟩ := beginSweep_ok began
  refine ⟨{
    phase := ready
    positive := consistent.positive
    whole := consistent.whole
    pagesInRange := fun page member => List.mem_range.mp (order.mem_iff.mp member)
    positionsInRange := fun _ member => absurd member List.not_mem_nil }, ?_, rfl⟩
  have total := (order.map (store.pageSizes.getD · 0)).sum_nat
  rw [map_getD_range] at total
  simp only [termsLeft, List.length_nil, Nat.zero_add, total, consistent.written ready]

/-- A sweep without terms left has come to its last page. -/
theorem Sweeping.pages_of_termsLeft (sweeping : store.Sweeping) (none : store.termsLeft = 0) :
    store.cursor.pages = [] := by
  cases order : store.cursor.pages with
  | nil => rfl
  | cons page rest =>
      have positive := sweeping.pagePositive page (by simp [order])
      simp only [termsLeft, order, List.map_cons, List.sum_cons] at none
      omega

/-- A request with positions left lends the next one, cancelled or not. -/
theorem Sweeping.next_lends (sweeping : store.Sweeping) (someLeft : store.cursor.terms ≠ [])
    (cancelled : Bool) (folder : FoundFolder) :
    ∃ term after, store.nextTerm cancelled folder = (.ok (some term), after) ∧ after.Sweeping ∧
      after.termsLeft + 1 = store.termsLeft ∧
      (after.cursor.pages = store.cursor.pages ∨ cancelled = false) := by
  obtain ⟨position, positions, left⟩ := List.exists_cons_of_ne_nil someLeft
  obtain ⟨term, after, lent, stillSweeping, -, rfl⟩ := sweeping.lend folder left
  refine ⟨term, _, ?_, stillSweeping, ?_, .inl rfl⟩
  · rw [nextTerm_of_terms someLeft, lent]
  · simp only [termsLeft, left, List.length_cons]
    omega

/-- A request fails, or it lends nothing and changes nothing, or it lends one of the terms that are
left. It has come to a new page only if the token has not fired. -/
theorem Sweeping.next (sweeping : store.Sweeping) (cancelled : Bool) (folder : FoundFolder) :
    (∃ fault, (store.nextTerm cancelled folder).1 = .error fault) ∨
      store.nextTerm cancelled folder = (.ok none, store) ∨
      ∃ term after, store.nextTerm cancelled folder = (.ok (some term), after) ∧ after.Sweeping ∧
        after.termsLeft + 1 = store.termsLeft ∧
        (after.cursor.pages = store.cursor.pages ∨ cancelled = false) := by
  by_cases used : store.cursor.terms = []
  · by_cases spent : cancelled = true ∨ store.cursor.pages = []
    · exact .inr (.inl (nextTerm_ends sweeping.phase used spent))
    · obtain ⟨going, someLeft⟩ := not_or.mp spent
      rw [Bool.not_eq_true] at going
      subst going
      obtain ⟨page, rest, order⟩ := List.exists_cons_of_ne_nil someLeft
      have cursor : store.cursor = ⟨page :: rest, []⟩ := by rw [← used, ← order]
      rcases sweeping.enter folder cursor with
        ⟨fault, after, refused, -⟩ | ⟨entered, positions, same, stillSweeping, sizes, entering,
          somePositions, drawn, -⟩
      · exact .inl ⟨.page fault, congrArg Prod.fst refused⟩
      · have someTerms : entered.cursor.terms ≠ [] := by rwa [entering]
        obtain ⟨term, after, lent, afterSweeping, fewer, -⟩ :=
          stillSweeping.next_lends someTerms false folder
        refine .inr (.inr ⟨term, after, same.trans lent, afterSweeping, ?_, .inr rfl⟩)
        rw [fewer]
        simp only [termsLeft, sizes, entering, cursor, drawn.length_eq, List.length_range,
          List.length_nil, List.map_cons, List.sum_cons, Nat.zero_add]
  · exact .inr (.inr (sweeping.next_lends used cancelled folder))

end PagedStore

/-- A paged store that is swept request by request. Every request finds the token and the folder as
they are at its time. The terms that the present sweep has lent are noted, and so is the request
that has entered its last page. -/
structure TimedStream where
  store : PagedStore
  token : Nat → Bool
  folder : Nat → FoundFolder
  requests : Nat
  lent : List (Term Single)
  lastPage : Option Nat

namespace TimedStream

/-- A stream that has not been asked for anything yet. -/
def ofStore (store : PagedStore) (token : Nat → Bool) (folder : Nat → FoundFolder) : TimedStream :=
  ⟨store, token, folder, 0, [], none⟩

/-- The stream after a request with its answer. -/
def advance (stream : TimedStream) (answer : Except (StoreFault Single) (Option (Term Single)))
    (store : PagedStore) : TimedStream :=
  { stream with
    store
    requests := stream.requests + 1
    lent := match answer with
      | .ok (some term) => stream.lent ++ [term]
      | _ => stream.lent
    lastPage :=
      if store.cursor.pages = [] ∧ stream.store.cursor.pages ≠ [] then some stream.requests
      else stream.lastPage }

instance : TermStream TimedStream Single where
  beginSweep stream :=
    match stream.store.beginSweep with
    | .error fault => (.error fault, stream)
    | .ok store => (.ok (), { stream with store, lent := [], lastPage := none })
  nextTerm stream :=
    let (answer, store) :=
      stream.store.nextTerm (stream.token stream.requests) (stream.folder stream.requests)
    (answer, stream.advance answer store)
  termCount stream := stream.store.termCount
  left stream := (stream.store.cursor.pages.length, stream.store.cursor.terms.length)
  leftDecreases := by
    intro stream term rest lent
    obtain ⟨found, same⟩ := Prod.mk.inj lent
    subst same
    exact PagedStore.nextTerm_shortens _ _ _ _ term (Prod.ext found rfl)

/-- A sealed store that counts a number of terms, under a token. -/
structure Sealed (token : Nat → Bool) (count : Nat) (stream : TimedStream) : Prop where
  reached : stream.store.Reached
  ready : stream.store.phase = .ready
  counted : stream.store.termCount = count
  token : stream.token = token

/-- A sweep under way: with what it has lent and what it has left it comes to the count, and its
last page, if it has been entered, was entered before the token fired. -/
structure Progress (count : Nat) (stream : TimedStream) : Prop where
  sweeping : stream.store.Sweeping
  counted : stream.lent.length + stream.store.termsLeft = count
  inTime : stream.store.cursor.pages = [] →
    ∃ request, stream.lastPage = some request ∧ stream.token request = false

variable {token : Nat → Bool} {count : Nat} {stream last begun : TimedStream}

theorem keeps_sealed (token : Nat → Bool) (count : Nat) :
    TermStream.Keeps (Sealed token count) where
  begins := by
    intro stream stands
    obtain ⟨begun, began⟩ : ∃ begun, stream.store.beginSweep = .ok begun := by
      rw [PagedStore.beginSweep, PagedStore.ensureReady_of_ready stands.ready]
      exact ⟨_, rfl⟩
    have reached := stands.reached.beginSweep began
    obtain ⟨ready, pages, generator, rfl, -⟩ := PagedStore.beginSweep_ok began
    simp only [TermStream.beginSweep, began]
    exact ⟨reached, ready, stands.counted, stands.token⟩
  asks := by
    intro stream stands
    obtain ⟨pool, recent, traffic, cursor, generator, left, -⟩ := stream.store.nextTerm_keeps
      (stream.token stream.requests) (stream.folder stream.requests)
      stands.reached.consistent.whole
    have reached := stands.reached.nextTerm (stream.token stream.requests)
      (stream.folder stream.requests)
    simp only [TermStream.nextTerm, advance]
    rw [left] at reached ⊢
    exact ⟨reached, stands.ready, stands.counted, stands.token⟩

/-- A sweep that begins has lent nothing, and has a page to come if there are any terms. -/
theorem Sealed.progress (stands : stream.Sealed token count) (someTerms : 0 < count)
    (began : TermStream.beginSweep stream = (.ok (), begun)) :
    begun.Progress count ∧ begun.lent = [] := by
  simp only [TermStream.beginSweep] at began
  split at began
  · cases began
  · rename_i store beginning
    cases began
    obtain ⟨sweeping, left, used⟩ := stands.reached.consistent.sweeping_begin beginning
    rw [stands.counted] at left
    refine ⟨⟨sweeping, (Nat.zero_add _).trans left, fun noPages => ?_⟩, rfl⟩
    dsimp only at noPages
    simp [PagedStore.termsLeft, used, noPages] at left
    omega

/-- A request that does not fail goes on with the sweep. -/
theorem Progress.next (progress : stream.Progress count)
    {answer : Except (StoreFault Single) (Option (Term Single))}
    (asked : TermStream.nextTerm stream = (answer, last))
    (noFault : ∀ fault, answer ≠ .error fault) :
    last.Progress count ∧
      last.lent = stream.lent ++ (match answer with | .ok (some term) => [term] | _ => []) := by
  simp only [TermStream.nextTerm] at asked
  rcases progress.sweeping.next (stream.token stream.requests) (stream.folder stream.requests) with
    ⟨fault, failed⟩ | same | ⟨term, after, lent, stillSweeping, fewer, entered⟩
  · cases asked
    exact absurd failed (noFault fault)
  · rw [same] at asked
    cases asked
    refine ⟨⟨progress.sweeping, progress.counted, fun noPages => ?_⟩, (List.append_nil _).symm⟩
    dsimp only [advance] at noPages ⊢
    rw [if_neg fun turned => turned.2 noPages]
    exact progress.inTime noPages
  · rw [lent] at asked
    cases asked
    have counted := progress.counted
    refine ⟨⟨stillSweeping, ?_, fun noPages => ?_⟩, rfl⟩
    · simp only [advance, List.length_append, List.length_singleton]
      omega
    · dsimp only [advance] at noPages ⊢
      by_cases before : stream.store.cursor.pages = []
      · rw [if_neg fun turned => turned.2 before]
        exact progress.inTime before
      · rw [if_pos ⟨noPages, before⟩]
        rcases entered with same | resting
        · exact absurd (same ▸ noPages) before
        · exact ⟨_, rfl, resting⟩

/-- What a sweep lends is noted, up to its end. -/
theorem Progress.drains {terms : List (Term Single)} (progress : stream.Progress count)
    (drains : TermStream.Drains stream terms last) :
    last.Progress count ∧ last.lent = stream.lent ++ terms := by
  induction drains with
  | ended none => exact progress.next none nofun
  | lends lent _ inductionHypothesis =>
      obtain ⟨next, noted⟩ := progress.next lent nofun
      obtain ⟨ended, others⟩ := inductionHypothesis next
      rw [others, noted, List.append_assoc]
      exact ⟨ended, rfl⟩

end TimedStream

end HingeLoss
