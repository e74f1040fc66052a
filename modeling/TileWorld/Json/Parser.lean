import TileWorld.Json.Basic
import TileWorld.Number.Scaled

/-! JSON text, read strictly: nothing but white space may follow the value, and no comment, trailing
comma, byte order mark or raw control character is let through. Nesting is not limited here, since
a limit applies only to what is kept. Descriptions and conditions are read from values, and what is
proved of them holds for any reader of texts. -/
namespace TileWorld.Json

/-- White space between tokens. -/
def skipBlank : List Char → List Char
  | ' ' :: cs | '\t' :: cs | '\n' :: cs | '\r' :: cs => skipBlank cs
  | cs => cs

def hexValue? (c : Char) : Option Nat :=
  if c.isDigit then some (c.toNat - '0'.toNat)
  else if 'a' ≤ c ∧ c ≤ 'f' then some (c.toNat - 'a'.toNat + 10)
  else if 'A' ≤ c ∧ c ≤ 'F' then some (c.toNat - 'A'.toNat + 10)
  else none

/-- The code unit that four hexadecimal digits spell. -/
def codeUnit? (a b c d : Char) : Option Nat := do
  let a ← hexValue? a
  let b ← hexValue? b
  let c ← hexValue? c
  let d ← hexValue? d
  some (((a * 16 + b) * 16 + c) * 16 + d)

/-- The character that follows a backslash, when it stands for another. -/
def escape? : Char → Option Char
  | '"' => some '"'
  | '\\' => some '\\'
  | '/' => some '/'
  | 'b' => some '\x08'
  | 'f' => some '\x0c'
  | 'n' => some '\n'
  | 'r' => some '\r'
  | 't' => some '\t'
  | _ => none

/-- A string from behind its opening quote, and what follows it. `text` holds the characters so far
in reverse; a surrogate without its pair leaves none. A high surrogate waits in `pending`. -/
def readString (text : Option (List Char)) (pending : Option Nat) :
    List Char → Option (Option String × List Char)
  | '"' :: cs =>
    let text := if pending.isSome then none else text
    some (text.map fun text => String.ofList text.reverse, cs)
  | '\\' :: 'u' :: a :: b :: c :: d :: cs =>
    match codeUnit? a b c d with
    | none => none
    | some unit =>
      if 0xD800 ≤ unit ∧ unit < 0xDC00 then
        readString (if pending.isSome then none else text) (some unit) cs
      else if 0xDC00 ≤ unit ∧ unit < 0xE000 then
        match pending with
        | some high =>
          let c := Char.ofNat (0x10000 + (high - 0xD800) * 0x400 + (unit - 0xDC00))
          readString (text.map (c :: ·)) none cs
        | none => readString none none cs
      else readString (if pending.isSome then none else text.map (Char.ofNat unit :: ·)) none cs
  | '\\' :: c :: cs =>
    match escape? c with
    | none => none
    | some c => readString (if pending.isSome then none else text.map (c :: ·)) none cs
  | c :: cs =>
    if c = '\\' ∨ c.toNat < 0x20 then none
    else readString (if pending.isSome then none else text.map (c :: ·)) none cs
  | [] => none

def ofText : Option String → Json
  | some s => .string s
  | none => .unreadable

/-- The whole part of a number: a single zero, or digits that do not start with one. -/
def readWhole? (cs : List Char) : Option (List Char × List Char) :=
  match cs.takeWhile Char.isDigit, cs.dropWhile Char.isDigit with
  | ['0'], rest => some (['0'], rest)
  | c :: digits, rest => if c = '0' then none else some (c :: digits, rest)
  | [], _ => none

/-- The digits behind a point, or none without one. -/
def readFraction? : List Char → Option (List Char × List Char)
  | '.' :: cs =>
    match cs.takeWhile Char.isDigit with
    | [] => none
    | digits => some (digits, cs.dropWhile Char.isDigit)
  | cs => some ([], cs)

/-- The exponent, or none without one. -/
def readPower? : List Char → Option (Option Int × List Char)
  | c :: cs =>
    if c = 'e' ∨ c = 'E' then
      let (negative, cs) := Number.takeSign cs
      match cs.takeWhile Char.isDigit with
      | [] => none
      | digits =>
        let n : Int := Number.ofDigits digits
        some (some (if negative then -n else n), cs.dropWhile Char.isDigit)
    else some (none, c :: cs)
  | [] => some (none, [])

/-- The value of a number literal. A literal without fraction and exponent is an integer if a 64-bit
word holds it, and minus zero is not one; all else is scaled in double arithmetic. -/
def ofLiteral (negative : Bool) (whole fraction : List Char) (power : Option Int) : Json :=
  let n := Number.ofDigits whole
  let isInt := fraction.isEmpty && power.isNone
  if isInt && !negative && n < UInt64.size then .int n
  else if isInt && negative && 0 < n && n ≤ 0x8000000000000000 then .int (-n)
  else
    match (Number.Decimal.cut negative whole fraction (power.getD 0)).scaled? with
    | some x => .float x
    | none => .unreadable

def readNumber? (cs : List Char) : Option (Json × List Char) := do
  let (negative, cs) := match cs with
    | '-' :: cs => (true, cs)
    | cs => (false, cs)
  let (whole, cs) ← readWhole? cs
  let (fraction, cs) ← readFraction? cs
  let (power, cs) ← readPower? cs
  some (ofLiteral negative whole fraction power, cs)

/-- An object whose names are all readable. -/
def ofMembers (members : List (Option String × Json)) : Json :=
  match members.mapM fun (name, value) => name.map (·, value) with
  | some members => .object members
  | none => .unreadable

mutual

/-- A value at the front of the text, and what follows it. -/
def readValue : Nat → List Char → Option (Json × List Char)
  | 0, _ => none
  | fuel + 1, cs =>
    match skipBlank cs with
    | 'n' :: 'u' :: 'l' :: 'l' :: cs => some (.null, cs)
    | 't' :: 'r' :: 'u' :: 'e' :: cs => some (.bool true, cs)
    | 'f' :: 'a' :: 'l' :: 's' :: 'e' :: cs => some (.bool false, cs)
    | '"' :: cs => (readString (some []) none cs).map fun (text, cs) => (ofText text, cs)
    | '[' :: cs =>
      match skipBlank cs with
      | ']' :: cs => some (.array [], cs)
      | cs => (readItems fuel cs).map fun (items, cs) => (.array items, cs)
    | '{' :: cs =>
      match skipBlank cs with
      | '}' :: cs => some (.object [], cs)
      | cs => (readMembers fuel cs).map fun (members, cs) => (ofMembers members, cs)
    | cs => readNumber? cs

/-- One or more items up to the closing bracket. -/
def readItems : Nat → List Char → Option (List Json × List Char)
  | 0, _ => none
  | fuel + 1, cs => do
    let (item, cs) ← readValue fuel cs
    match skipBlank cs with
    | ',' :: cs => (readItems fuel cs).map fun (items, cs) => (item :: items, cs)
    | ']' :: cs => some ([item], cs)
    | _ => none

/-- One or more members up to the closing brace. -/
def readMembers : Nat → List Char → Option (List (Option String × Json) × List Char)
  | 0, _ => none
  | fuel + 1, cs =>
    match skipBlank cs with
    | '"' :: cs => do
      let (name, cs) ← readString (some []) none cs
      match skipBlank cs with
      | ':' :: cs =>
        let (value, cs) ← readValue fuel cs
        match skipBlank cs with
        | ',' :: cs => (readMembers fuel cs).map fun (members, cs) => ((name, value) :: members, cs)
        | '}' :: cs => some ([(name, value)], cs)
        | _ => none
      | _ => none
    | _ => none

end

/-- The value of a JSON text. A call of a reader takes a character, or comes right after one that a
bracket or comma took, so twice the length bounds the depth of calls. -/
def parse? (text : String) : Option Json :=
  let cs := text.toList
  match readValue (2 * cs.length + 2) cs with
  | some (value, rest) => if (skipBlank rest).isEmpty then some value else none
  | none => none

end TileWorld.Json
