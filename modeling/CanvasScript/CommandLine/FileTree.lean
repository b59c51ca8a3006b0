/-
Files as the program sees them: a path leads to a text, or to a reason why it does not.

`FileTree` is a directory with everything in it, and `openFile` follows a path through it
component by component. An empty component and a single dot stay where they are and two dots
go up, but each of them, like any name, asks that the place reached so far is a directory. So
a path that goes on after a file fails in a way of its own, even when only a slash follows.
Above the directory there are only directories, in which nothing else is known to be.
-/
import CanvasScript.Text.Natural

set_option autoImplicit false

namespace CanvasScript

/-- Why a path does not lead to a text. -/
inductive FileFault where
  | missing
  /-- The path goes on after a file. -/
  | notDirectory
  | isDirectory
  /-- The bytes of the file are no text. -/
  | notText
  /-- The system refuses for another reason, by its number and words. -/
  | other (code : Nat) (words : String)
  deriving DecidableEq, Repr

def FileFault.message : FileFault → String
  | .missing => "No such file or directory (os error 2)"
  | .notDirectory => "Not a directory (os error 20)"
  | .isDirectory => "Is a directory (os error 21)"
  | .notText => "stream did not contain valid UTF-8"
  | .other code words => words ++ " (os error " ++ Text.natural code ++ ")"

abbrev FileContent := Except FileFault String

/-- Whether opening a file finds something, be it readable or not. -/
def FileContent.isPresent : FileContent → Bool
  | .error .missing => false
  | .error .notDirectory => false
  | _ => true

/-- A directory with everything in it: the components of each path in it, and what is there.
Directories above an entry need no entry of their own. -/
structure FileTree where
  /-- Each path below the directory, with its text, or its fault when it has none. -/
  entries : List (List String × FileContent)

namespace FileTree

def components (path : String) : List String := (path.toList.splitOn '/').map String.ofList

/-- The tree of files given by their paths. -/
def ofPaths (files : List (String × FileContent)) : FileTree :=
  ⟨files.map fun (path, content) => (components path, content)⟩

/-- Whether a place, given by its names from the top, is the top or somewhere above it. -/
def isTopOrAbove (place : List String) : Bool := place.all fun name => name == ".."

/-- What is at a place, which is given by its names from the top. -/
def contentAt (tree : FileTree) (place : List String) : FileContent :=
  match tree.entries.lookup place with
  | some content => content
  | none =>
    if isTopOrAbove place || tree.entries.any fun entry => place.isPrefixOf entry.1 then
      .error .isDirectory
    else .error .missing

/-- The place that one component of a path leads to. -/
def enter (place : List String) (component : String) : List String :=
  if component = "" ∨ component = "." then place
  else if component = ".." ∧ !isTopOrAbove place then place.dropLast
  else place ++ [component]

def follow (tree : FileTree) (place : List String) : List String → FileContent
  | [] => tree.contentAt place
  | component :: rest =>
    match tree.contentAt place with
    | .error .isDirectory => tree.follow (enter place component) rest
    | .error .missing => .error .missing
    | _ => .error .notDirectory

/-- Opens the file at a path from the directory on. Of paths from elsewhere nothing is known. -/
def openFile (tree : FileTree) (path : String) : FileContent :=
  if path = "" ∨ path.toList.head? = some '/' then .error .missing
  else tree.follow [] (components path)

end FileTree

end CanvasScript
