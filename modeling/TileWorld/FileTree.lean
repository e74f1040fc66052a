import TileWorld.Text

/-! Files as a value: a tree, the folder that relative paths start from, and reading and writing. -/
namespace TileWorld

/-- Why a file cannot be read or written. -/
inductive FileError where
  | notFound
  | isFolder
  | notFolder
  | notText
  /-- The path holds a zero character, which no path can. -/
  | zeroInPath
  | tooLong
  | other (message : String)
deriving DecidableEq, Inhabited

def FileError.message : FileError → String
  | .notFound => "No such file or directory (os error 2)"
  | .isFolder => "Is a directory (os error 21)"
  | .notFolder => "Not a directory (os error 20)"
  | .notText => "stream did not contain valid UTF-8"
  | .zeroInPath => "file name contained an unexpected NUL byte"
  | .tooLong => "File name too long (os error 36)"
  | .other message => message

/-- What a program sees of files: the outcome of reading each path. -/
abbrev FileView := String → Except FileError String

/-- Whether there is anything at a path. -/
def FileView.exists? (files : FileView) (path : String) : Bool :=
  match files path with
  | .error .notFound | .error .notFolder | .error .zeroInPath | .error .tooLong => false
  | _ => true

inductive FileNode where
  | text (content : String)
  /-- Bytes that are not text. -/
  | binary
  | folder (entries : List (String × FileNode))
deriving Inhabited

namespace FileNode

def ofBytes (bytes : ByteArray) : FileNode :=
  match String.fromUTF8? bytes with
  | some content => .text content
  | none => .binary

def entries : FileNode → List (String × FileNode)
  | .folder entries => entries
  | _ => []

def isFolder : FileNode → Bool
  | .folder _ => true
  | _ => false

/-- The node that names lead to. -/
def find? : List String → FileNode → Option FileNode
  | [], node => some node
  | name :: names, node => (node.entries.lookup name).bind (find? names)

def setEntry (entries : List (String × FileNode)) (name : String) (node : FileNode) :
    List (String × FileNode) :=
  (entries.filter (·.1 ≠ name)) ++ [(name, node)]

theorem lookup_setEntry (entries : List (String × FileNode)) (name : String) (node : FileNode) :
    (setEntry entries name node).lookup name = some node := by
  induction entries with
  | nil => simp [setEntry]
  | cons e es ih => grind [setEntry]

/-- Puts a node where names lead, making the folders on the way. -/
def put (new : FileNode) : List String → FileNode → FileNode
  | [], _ => new
  | name :: names, node =>
    let child := (node.entries.lookup name).getD (.folder [])
    .folder (setEntry node.entries name (put new names child))

/-- What is put somewhere is found there. -/
theorem find?_put (new : FileNode) (names : List String) (node : FileNode) :
    (put new names node).find? names = some new := by
  induction names generalizing node with
  | nil => rfl
  | cons name names ih => simp [put, find?, entries, lookup_setEntry, ih]

/-- The tree with a node put where names lead. -/
def withNode (node new : FileNode) (names : List String) : FileNode :=
  put new names node

end FileNode

/-- Bytes that one name may have. -/
def maxNameSize : Nat := 255

/-- Bytes that a path may have. -/
def maxPathSize : Nat := 4095

structure FileTree where
  root : FileNode
  /-- Names from the root to the folder that relative paths start from. -/
  workingFolder : List String

namespace FileTree

/-- Follows the parts of a path from a place, both as names from the root. Each part, even an empty
one, asks for a folder to stand in; `..` of the root is the root. -/
def follow (t : FileTree) : List String → List String → Except FileError (List String)
  | place, [] => .ok place
  | place, part :: parts =>
    match t.root.find? place with
    | none => .error .notFound
    | some node =>
      if !node.isFolder then .error .notFolder
      else if part = "" ∨ part = "." then t.follow place parts
      else if part = ".." then t.follow place.dropLast parts
      else if maxNameSize < part.utf8ByteSize then .error .tooLong
      else t.follow (place ++ [part]) parts

def start (t : FileTree) (path : String) : List String :=
  if path.toList.head? = some '/' then [] else t.workingFolder

def parts (path : String) : List String :=
  (Text.split '/' path.toList).map String.ofList

/-- Refuses a path that can name nothing in any tree. -/
def checkPath (path : String) : Except FileError Unit :=
  if path.toList.contains '\x00' then .error .zeroInPath
  else if path = "" then .error .notFound
  else if maxPathSize < path.utf8ByteSize then .error .tooLong
  else .ok ()

/-- The place that a path names. -/
def resolve (t : FileTree) (path : String) : Except FileError (List String) := do
  checkPath path
  t.follow (t.start path) (parts path)

def node (t : FileTree) (path : String) : Except FileError FileNode := do
  let place ← t.resolve path
  match t.root.find? place with
  | some node => .ok node
  | none => .error .notFound

/-- The text of a file. -/
def read (t : FileTree) (path : String) : Except FileError String := do
  match ← t.node path with
  | .text content => .ok content
  | .binary => .error .notText
  | .folder _ => .error .isFolder

/-- The parts of a path without the slashes at its end. -/
def namedParts (path : String) : List String :=
  ((parts path).reverse.dropWhile (· = "")).reverse

/-- Whether a path can name nothing but a folder: it ends in a slash or in dots. -/
def namesFolder (path : String) : Bool :=
  (parts path).getLast?.any fun part => part = "" ∨ part = "." ∨ part = ".."

/-- Writes a text file, in place of an earlier one. The folder that its name stands in must be
there; after that a path that can name only a folder is refused, whatever stands at the name. -/
def write (t : FileTree) (path content : String) : Except FileError FileTree := do
  checkPath path
  let names := namedParts path
  let folder ← t.follow (t.start path) names.dropLast
  let name := names.getLast?.getD ""
  match t.root.find? folder with
  | none => throw .notFound
  | some node =>
    if !node.isFolder then throw .notFolder
    if namesFolder path || (node.entries.lookup name).any FileNode.isFolder then throw .isFolder
    if maxNameSize < name.utf8ByteSize then throw .tooLong
    return { t with root := t.root.withNode (.text content) (folder ++ [name]) }

/-- The tree with a node at a path below the working folder, whose folders are made on the way. An
empty folder leaves one that is there as it is. -/
def place (t : FileTree) (path : String) (node : FileNode) : FileTree :=
  let names := t.workingFolder ++ (parts path).filter fun part => part ≠ "" ∧ part ≠ "."
  if node.isFolder && (t.root.find? names).any FileNode.isFolder then t
  else { t with root := t.root.withNode node names }

/-- A tree of the given nodes by path, all below the working folder `/work`. -/
def ofFiles (files : List (String × FileNode)) : FileTree :=
  files.foldl (fun t (path, node) => t.place path node)
    ⟨.folder [("work", .folder [])], ["work"]⟩

end FileTree

end TileWorld
