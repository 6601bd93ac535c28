import HingeLoss.Paged.Stream

/-! Grounding from a source straight into pages, one item at a time. -/

namespace HingeLoss

/-- What a source yields: a term, or the fault of making one. The token may fire while it is made.
-/
structure SourceItem where
  term : Except (StoreFault Single) (Term Single)
  fires : Bool

structure Grounding where
  store : PagedStore
  atoms : AtomStore Single
  folder : FoundFolder
  source : List SourceItem
  /-- The state of the cancel token. -/
  cancelled : Bool
  /-- No step does anything any more. -/
  finished : Bool
  /-- The steps ended because of the token. -/
  stopped : Bool

namespace Grounding

def start (store : PagedStore) (atoms : AtomStore Single) (folder : FoundFolder)
    (source : List SourceItem) (cancelled : Bool) : Grounding :=
  ⟨store, atoms, folder, source, cancelled, false, false⟩

/-- One step. The pass counts as finished before the store is sealed. -/
def next (pass : Grounding) : Except (StoreFault Single) (Option (Term Single)) × Grounding :=
  if pass.finished then (.ok none, pass)
  else if pass.cancelled then (.ok none, { pass with finished := true, stopped := true })
  else match pass.source with
    | [] =>
        match pass.store.finish pass.folder with
        | (.error fault, folder) => (.error fault, { pass with folder, finished := true })
        | (.ok store, folder) => (.ok none, { pass with store, folder, finished := true })
    | item :: source =>
        let pulled := { pass with source, cancelled := pass.cancelled || item.fires }
        match item.term with
        | .error fault => (.error fault, pulled)
        | .ok term =>
            match pass.store.add term pass.atoms pass.folder with
            | (.error fault, store, atoms, folder) =>
                (.error fault, { pulled with store, atoms, folder })
            | (.ok _, store, atoms, folder) =>
                (.ok (store.pool.get? (store.pool.count - 1)),
                  { pulled with store, atoms, folder })

def pagesWritten (pass : Grounding) : Nat := pass.store.pageSizes.size

/-- The number of steps after which the pass has surely finished. -/
def stepBound (pass : Grounding) : Nat := pass.source.length + 1

/-- The answers of the steps up to the end, going on after faults, each with the number of pages
written by then. -/
def trace : Nat → Grounding → List (Except (StoreFault Single) (Term Single × Nat)) × Grounding
  | 0, pass => ([], pass)
  | bound + 1, pass =>
      match pass.next with
      | (.ok none, pass) => ([], pass)
      | (.ok (some term), pass) =>
          let (later, last) := trace bound pass
          (.ok (term, pass.pagesWritten) :: later, last)
      | (.error fault, pass) =>
          let (later, last) := trace bound pass
          (.error fault :: later, last)

/-- The steps up to the end or the first fault. The answer is the number of terms lent. -/
def run : Nat → Grounding → Except (StoreFault Single) Nat × Grounding
  | 0, pass => (.ok 0, pass)
  | bound + 1, pass =>
      match pass.next with
      | (.ok none, pass) => (.ok 0, pass)
      | (.error fault, pass) => (.error fault, pass)
      | (.ok (some _), pass) =>
          let (answer, pass) := run bound pass
          (answer.map (· + 1), pass)

end Grounding

end HingeLoss
