/-!
# Document names

Documents are named by paths or URIs. A locator found in a reference is read relative to the
document that holds it: an empty locator means that document, a locator with a scheme
(`scheme://`) or a leading `/` stands alone, and any other locator replaces the last component of
the document's path, after which `.` components are dropped and `..` components cancel the
component before them. A URI's `scheme://authority` is never cancelled. The stem of a document is
its last component up to the first dot (a leading dot does not count).
-/

namespace SchemaModel.Document

/-- The position of the first occurrence of `pat` in `cs`. -/
def infixIndex? (pat : List Char) : List Char → Option Nat
  | [] => if pat.isEmpty then some 0 else none
  | c :: rest =>
    if pat.isPrefixOf (c :: rest) then some 0 else (infixIndex? pat rest).map (· + 1)

/-- The components of a path between slashes, empty ones included; `cur` is the current
component, reversed. -/
def componentsFrom : List Char → List Char → List String
  | [], cur => [String.ofList cur.reverse]
  | c :: rest, cur =>
    if c = '/' then String.ofList cur.reverse :: componentsFrom rest [] else componentsFrom rest (c :: cur)

/-- The components of a path between slashes, empty ones included. -/
def components (cs : List Char) : List String := componentsFrom cs []

/-- One component of a path onto the components kept so far, last first. -/
def push (absolute : Bool) (kept : List String) (part : String) : List String :=
  if part = "" ∨ part = "." then kept
  else if part = ".." then
    match kept with
    | last :: rest => if last ≠ ".." then rest else part :: kept
    | [] => if absolute then [] else [part]
  else part :: kept

/-- The `scheme://authority` of a path, if it has one, and the rest of it. -/
def splitAuthority (cs : List Char) : List Char × List Char :=
  match infixIndex? "://".toList cs with
  | some i =>
    let afterScheme := cs.drop (i + 3)
    let authority := afterScheme.takeWhile (· ≠ '/')
    (cs.take (i + 3 + authority.length), cs.drop (i + 3 + authority.length))
  | none => ([], cs)

/-- A path with `.` components dropped and `..` components cancelled. -/
def normalize (path : String) : String :=
  let (prefix', rest) := splitAuthority path.toList
  let absolute := rest.head? = some '/'
  let kept := (components rest).foldl (push absolute) []
  let joined := "/".intercalate kept.reverse
  String.ofList prefix' ++ (if absolute then "/" else "") ++ joined

/-- Whether a locator stands alone: it has a scheme or starts with `/`. -/
def isAbsolute (locator : String) : Bool :=
  (infixIndex? "://".toList locator.toList).isSome || locator.toList.head? = some '/'

/-- The directory part of a path: up to and including its last `/`. -/
def directory (path : String) : String :=
  String.ofList (path.toList.reverse.dropWhile (· ≠ '/')).reverse

/-- The document a locator designates, read relative to `base`. -/
def join (base locator : String) : String :=
  if locator.isEmpty then base
  else if isAbsolute locator then locator
  else normalize (directory base ++ locator)

/-- The stem of a document: its last component up to the first dot not at its start. -/
def stem (doc : String) : String :=
  let file := (doc.toList.reverse.takeWhile (· ≠ '/')).reverse
  match file.idxOf? '.' with
  | some 0 | none => String.ofList file
  | some i => String.ofList (file.take i)

end SchemaModel.Document
