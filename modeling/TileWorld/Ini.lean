import TileWorld.Text

/-! Settings text: sections of `key = value` lines. Names of sections and keys have no case, a later
key replaces an earlier one, and a section may come back. -/
namespace TileWorld.Ini

/-- Why a text is refused; lines count from one. -/
inductive ParseError where
  | unclosedSection (line : Nat)
  | emptyKey (line : Nat)
deriving DecidableEq

/-- The position in the message is that of the delimiter within its line: an empty key leaves it
at the start. -/
def ParseError.message : ParseError → String
  | .unclosedSection line =>
    s!"line {line}: Found opening bracket for section name but no closing bracket"
  | .emptyKey line => s!"line {line}:0: Key cannot be empty"

/-- A key in its section, with its value if it has one. -/
structure Entry where
  group : List Char
  key : List Char
  value : Option (List Char)
deriving DecidableEq

/-- Entries in the order of their lines. -/
abbrev Document := List Entry

/-- The section of keys that stand before any. -/
def defaultSection : List Char :=
  "default".toList

def isComment (c : Char) : Bool :=
  c = ';' || c = '#'

def isDelimiter (c : Char) : Bool :=
  c = '=' || c = ':'

/-- The text before the last closing bracket. -/
def beforeBracket? (cs : List Char) : Option (List Char) :=
  match cs.reverse.dropWhile (· ≠ ']') with
  | [] => none
  | _ :: before => some before.reverse

/-- The part of a line that counts: before any comment, without the white space around it. -/
def content (line : List Char) : List Char :=
  Text.trim ((Text.trim line).takeWhile fun c => !isComment c)

/-- A key and its value, split at the first delimiter; without one it is all key. -/
def keyValue (cs : List Char) : List Char × Option (List Char) :=
  let key := Text.lower (Text.trim (cs.takeWhile fun c => !isDelimiter c))
  match cs.dropWhile fun c => !isDelimiter c with
  | [] => (key, none)
  | _ :: value => (key, some (Text.trim value))

/-- The entries of the lines from number `n` on, in the section now open. -/
def readLines : Nat → List Char → List (List Char) → Except ParseError Document
  | _, _, [] => .ok []
  | n, current, line :: lines =>
    match content line with
    | [] => readLines (n + 1) current lines
    | '[' :: cs =>
      match beforeBracket? cs with
      | none => .error (.unclosedSection n)
      | some name => readLines (n + 1) (Text.lower (Text.trim name)) lines
    | cs =>
      match keyValue cs with
      | ([], _) => .error (.emptyKey n)
      | (key, value) => (readLines (n + 1) current lines).map (⟨current, key, value⟩ :: ·)

def parse (text : String) : Except ParseError Document :=
  readLines 1 defaultSection (Text.lines text.toList)

/-- The value of a key; the last entry counts, and a key without a value has none. -/
def Document.find? (d : Document) (group key : String) : Option (List Char) :=
  (d.reverse.find? fun e => e.group = group.toList && e.key = key.toList).bind (·.value)

/-- A section line and its `key=value` lines. -/
def renderSection (name : String) (entries : List (String × String)) : String :=
  entries.foldl (fun text (key, value) => text ++ key ++ "=" ++ value ++ "\n")
    ("[" ++ name ++ "]\n")

end TileWorld.Ini
