/-! Paths as the texts they were written as, and as steps. -/

namespace HingeLoss

/-- A path from the top of a disk. -/
structure Path where
  shown : String
  steps : List String
  /-- The text ends with a slash, so what it names has to be a folder. -/
  slash : Bool
deriving DecidableEq, Inhabited

namespace Path

def stepsOf (text : String) : List String := (text.splitOn "/").filter (· ≠ "")

def ofText (text : String) : Path := ⟨text, stepsOf text, text.endsWith "/"⟩

/-- A slash stands between two texts, but not behind another one and not at the front. -/
def glue (front back : String) : String :=
  if front.isEmpty || front.endsWith "/" then front ++ back else front ++ "/" ++ back

/-- A path below this one, or an absolute path on its own. -/
def join (path : Path) (text : String) : Path :=
  if text.startsWith "/" then ofText text
  else
    let shown := glue path.shown text
    ⟨shown, path.steps ++ stepsOf text, shown.endsWith "/"⟩

/-- The path of a name in the folder at this one. -/
def child (path : Path) (name : String) : Path :=
  ⟨glue path.shown name, path.steps ++ [name], false⟩

/-- A reversed text without slashes at its end and without steps that stay in place. -/
def dropStays : List Char → List Char
  | '/' :: rest => dropStays rest
  | '.' :: '/' :: rest => dropStays rest
  | reversed => reversed

/-- The path without its last step. Steps that stay in place do not count, neither before the last
one nor behind it. -/
def parent (path : Path) : Path :=
  let reversed := (dropStays path.shown.toList.reverse).dropWhile (· ≠ '/')
  let kept := String.ofList (dropStays reversed).reverse
  let steps := path.steps.reverse.dropWhile (· = ".")
  ⟨if kept.isEmpty && !reversed.isEmpty then "/" else kept,
    ((steps.drop 1).dropWhile (· = ".")).reverse, false⟩

/-- The path and those of its parents, up to a number of them. -/
def ancestors : Nat → Path → List Path
  | 0, _ => []
  | count + 1, path => path :: ancestors count path.parent

end Path

end HingeLoss
