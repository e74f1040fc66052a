import TileWorld.Json.Basic
import TileWorld.Number.Shortest

/-! JSON text of a value, without white space. A float has the fewest digits that tell it from its
neighbours in its own precision, and a point or an exponent, so that no reader takes it for an
integer. -/
namespace TileWorld.Json

/-- The bounds of positional notation: places before the point, and zeros right behind it. -/
structure Layout where
  places : Nat
  zeros : Nat

def singleLayout : Layout := ⟨13, 5⟩

def doubleLayout : Layout := ⟨16, 4⟩

def integer (n : Int) : List Char :=
  let digits := Nat.toDigits 10 n.natAbs
  if n < 0 then '-' :: digits else digits

/-- The text of `digits * 10 ^ exponent` with an exponent, and with a point behind the first digit
if more follow. -/
def scientific (digits : Nat) (exponent : Int) : List Char :=
  match Nat.toDigits 10 digits with
  | [] => []
  | [d] => d :: 'e' :: integer exponent
  | d :: ds => d :: '.' :: ds ++ 'e' :: integer (exponent + ds.length)

namespace Layout

/-- The text of `digits * 10 ^ exponent`, positional within the bounds. -/
def decimal (l : Layout) (digits : Nat) (exponent : Int) : List Char :=
  let places := (Nat.toDigits 10 digits).length + exponent
  if -(l.zeros : Int) ≤ places ∧ places ≤ l.places then
    (Number.positional digits exponent).toList ++ if 0 ≤ exponent then ['.', '0'] else []
  else scientific digits exponent

/-- The text of a float; null if it is not finite. -/
def float (l : Layout) (F : Number.Format) (bits : Nat) : List Char :=
  match F.value bits with
  | .finite negative m _ =>
    let text :=
      if m = 0 then ['0', '.', '0']
      else
        let basin := Number.Basin.ofPattern F (bits % F.signBit)
        let (digits, exponent) := basin.shortest .even
        l.decimal digits exponent
    if negative then '-' :: text else text
  | _ => "null".toList

end Layout

/-- The digits of a code unit below 256, behind two zeros. -/
def hexDigits (n : Nat) : List Char :=
  '0' :: '0' :: [Nat.digitChar (n / 16), Nat.digitChar (n % 16)]

/-- A character as it stands in a string. -/
def quoted (c : Char) : List Char :=
  match c with
  | '"' => ['\\', '"']
  | '\\' => ['\\', '\\']
  | '\x08' => ['\\', 'b']
  | '\x0c' => ['\\', 'f']
  | '\n' => ['\\', 'n']
  | '\r' => ['\\', 'r']
  | '\t' => ['\\', 't']
  | c => if c.toNat < 0x20 then '\\' :: 'u' :: hexDigits c.toNat else [c]

def quote (s : String) : List Char :=
  '"' :: s.toList.flatMap quoted ++ ['"']

mutual

def chars : Json → List Char
  | .null | .unreadable => "null".toList
  | .bool true => "true".toList
  | .bool false => "false".toList
  | .int n => integer n
  | .float x => doubleLayout.float .double x.toBits.toNat
  | .single x => singleLayout.float .single x.toBits.toNat
  | .string s => quote s
  | .array items => '[' :: itemChars items ++ [']']
  | .object members => '{' :: memberChars members ++ ['}']

def itemChars : List Json → List Char
  | [] => []
  | [item] => chars item
  | item :: items => chars item ++ ',' :: itemChars items

def memberChars : List (String × Json) → List Char
  | [] => []
  | [(name, value)] => quote name ++ ':' :: chars value
  | (name, value) :: members => quote name ++ ':' :: chars value ++ ',' :: memberChars members

end

def text (json : Json) : String :=
  String.ofList json.chars

end TileWorld.Json
