/-! Characters of plain text: white space, lines, and splitting at a separator. -/
namespace TileWorld.Text

/-- The characters of the Unicode property White_Space. -/
def isBlank (c : Char) : Bool :=
  let n := c.toNat
  (0x9 ≤ n && n ≤ 0xD) || n = 0x20 || n = 0x85 || n = 0xA0 || n = 0x1680 ||
    (0x2000 ≤ n && n ≤ 0x200A) || n = 0x2028 || n = 0x2029 || n = 0x202F || n = 0x205F || n = 0x3000

def trimStart (cs : List Char) : List Char :=
  cs.dropWhile isBlank

def trimEnd (cs : List Char) : List Char :=
  (cs.reverse.dropWhile isBlank).reverse

/-- The text without the white space around it. -/
def trim (cs : List Char) : List Char :=
  trimEnd (trimStart cs)

/-- The parts between the separators, empty ones too; always at least one. -/
def split (sep : Char) : List Char → List (List Char)
  | [] => [[]]
  | c :: cs =>
    if c = sep then [] :: split sep cs
    else
      match split sep cs with
      | [] => [[c]]
      | part :: parts => (c :: part) :: parts

def join (sep : Char) (parts : List (List Char)) : List Char :=
  [sep].intercalate parts

theorem split_ne_nil (sep : Char) (cs : List Char) : split sep cs ≠ [] := by
  fun_cases split sep cs <;> simp

/-- The lines of a text; the last need not end in a line feed, and a carriage return before a line
feed belongs to it. -/
def lines (cs : List Char) : List (List Char) :=
  let parts := split '\n' cs
  let ended := parts.dropLast.map fun line =>
    if line.getLast? = some '\r' then line.dropLast else line
  match parts.getLast? with
  | some [] | none => ended
  | some last => ended ++ [last]

/-- The text with every leading copy of `start` taken off, for a non-empty `start`. -/
def dropLeading (start : List Char) : Nat → List Char → List Char
  | 0, cs => cs
  | fuel + 1, cs =>
    if start.isPrefixOf cs then dropLeading start fuel (cs.drop start.length) else cs

/-- The text before a given ending. -/
def stripEnding? (ending cs : List Char) : Option (List Char) :=
  if ending.isSuffixOf cs then some (cs.take (cs.length - ending.length)) else none

/-- Case folding of ASCII letters. -/
def lower (cs : List Char) : List Char :=
  cs.map Char.toLower

end TileWorld.Text
