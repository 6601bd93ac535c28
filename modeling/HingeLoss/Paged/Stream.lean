import HingeLoss.Paged.Replay

/-! A paged store as a stream: the store with its folder and the state of its cancel token. -/

namespace HingeLoss

namespace PagedStore

theorem readPage_cursor (store : PagedStore) (page : Nat) (folder : FoundFolder) :
    (store.readPage page folder).2.cursor = store.cursor := by
  simp only [readPage]
  split
  · rfl
  · split
    · rfl
    · split <;> rfl

theorem enterPage_cursor (store : PagedStore) (page : Nat) (folder : FoundFolder) :
    (store.enterPage page folder).2.cursor = store.cursor := by
  unfold enterPage
  split
  · rfl
  · exact readPage_cursor store page folder

theorem advance_shortens (cancelled : Bool) (folder : FoundFolder) (pages : List Nat)
    (store rest : PagedStore) (advanced : advance cancelled folder pages store = (.ok true, rest)) :
    rest.cursor.pages.length < pages.length := by
  induction pages generalizing store with
  | nil => simp [advance] at advanced
  | cons page later inductionHypothesis =>
      simp only [advance] at advanced
      split at advanced
      · simp at advanced
      · split at advanced
        · simp at advanced
        · rename_i entered equation
          have kept := enterPage_cursor { store with cursor := ⟨later, []⟩ } page folder
          rw [equation] at kept
          split at advanced
          · exact Nat.lt_trans (inductionHypothesis _ advanced) (by simp)
          · simp only [Prod.mk.injEq, true_and] at advanced
            dsimp only at kept
            subst advanced
            simp [orderTerms, kept]

theorem lend_shortens (store rest : PagedStore) (term : Term Single)
    (lent : store.lend = (.ok (some term), rest)) :
    rest.cursor.pages = store.cursor.pages ∧
      rest.cursor.terms.length < store.cursor.terms.length := by
  unfold lend at lent
  split at lent
  · simp at lent
  · rename_i position later equation
    dsimp only at lent
    split at lent
    · simp only [Prod.mk.injEq] at lent
      rw [← lent.2, equation]
      simp
    · simp at lent

theorem nextTerm_shortens (store rest : PagedStore) (cancelled : Bool) (folder : FoundFolder)
    (term : Term Single) (lent : store.nextTerm cancelled folder = (.ok (some term), rest)) :
    Prod.Lex (· < ·) (· < ·) (rest.cursor.pages.length, rest.cursor.terms.length)
      (store.cursor.pages.length, store.cursor.terms.length) := by
  unfold nextTerm at lent
  split at lent
  · simp at lent
  · split at lent
    · split at lent
      · simp at lent
      · simp at lent
      · rename_i advanced
        have shorter := advance_shortens _ _ _ _ _ advanced
        have kept := (lend_shortens _ _ _ lent).1
        apply Prod.Lex.left
        rw [kept]
        exact shorter
    · have shorter := lend_shortens _ _ _ lent
      rw [shorter.1]
      exact Prod.Lex.right _ shorter.2

end PagedStore

/-- The folder and the token do not change while the stream is swept. -/
structure PagedStream where
  store : PagedStore
  folder : FoundFolder
  cancelled : Bool

instance : TermStream PagedStream Single where
  beginSweep stream :=
    match stream.store.beginSweep with
    | .error fault => (.error fault, stream)
    | .ok store => (.ok (), { stream with store })
  nextTerm stream :=
    let (answer, store) := stream.store.nextTerm stream.cancelled stream.folder
    (answer, { stream with store })
  termCount stream := stream.store.termCount
  left stream := (stream.store.cursor.pages.length, stream.store.cursor.terms.length)
  leftDecreases := by
    intro stream term rest lent
    obtain ⟨found, same⟩ := Prod.mk.inj lent
    subst same
    exact PagedStore.nextTerm_shortens _ _ _ _ term (Prod.ext found rfl)

end HingeLoss
