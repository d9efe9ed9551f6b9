/-
JSON values, and their compact text: no blanks, members in the order given, and in strings nothing
escaped but quotes, backslashes and control characters.
-/
import SharedSheet.Number.Shortest

namespace SharedSheet

/-- A JSON value. Numbers written without fraction and exponent are integers as long as they fit 64
bits; all other numbers are doubles. -/
inductive Json where
  | null
  | bool (b : Bool)
  | integer (n : Int)
  | real (x : Float)
  | string (s : String)
  | array (items : List Json)
  | object (members : List (String × Json))

namespace Json

/-- A natural number as a value. -/
def ofNat (n : Nat) : Json := .integer n

/-! ## Text -/

/-- A hexadecimal digit in lower case. -/
def hexDigit (n : Nat) : Char := Nat.digitChar (n % 16)

/-- One character inside a string. -/
def escapeChar (c : Char) : List Char :=
  match c with
  | '"' => ['\\', '"']
  | '\\' => ['\\', '\\']
  | '\n' => ['\\', 'n']
  | '\r' => ['\\', 'r']
  | '\t' => ['\\', 't']
  | '\x08' => ['\\', 'b']
  | '\x0c' => ['\\', 'f']
  | c => if c.toNat < 0x20 then ['\\', 'u', '0', '0', hexDigit (c.toNat / 16), hexDigit c.toNat] else [c]

/-- A string in quotes. -/
def renderString (s : String) : List Char := '"' :: s.toList.flatMap escapeChar ++ ['"']

/-- An integer in decimal. -/
def renderInteger : Int → List Char
  | .ofNat n => Number.digitsOf n
  | .negSucc n => '-' :: Number.digitsOf (n + 1)

mutual

/-- The compact text of a value. -/
def renderChars : Json → List Char
  | .null => ['n', 'u', 'l', 'l']
  | .bool true => ['t', 'r', 'u', 'e']
  | .bool false => ['f', 'a', 'l', 's', 'e']
  | .integer n => renderInteger n
  | .real x => Number.textOf x
  | .string s => renderString s
  | .array items => '[' :: renderItems items
  | .object members => '{' :: renderMembers members

/-- The items of an array and the bracket behind them. -/
def renderItems : List Json → List Char
  | [] => [']']
  | [v] => renderChars v ++ [']']
  | v :: vs => renderChars v ++ ',' :: renderItems vs

/-- The members of an object and the brace behind them. -/
def renderMembers : List (String × Json) → List Char
  | [] => ['}']
  | [(k, v)] => renderString k ++ ':' :: renderChars v ++ ['}']
  | (k, v) :: ms => renderString k ++ ':' :: renderChars v ++ ',' :: renderMembers ms

end

@[inherit_doc renderChars]
def render (v : Json) : String := String.ofList (renderChars v)

end Json

end SharedSheet
