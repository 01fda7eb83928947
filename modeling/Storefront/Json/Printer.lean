import Storefront.Json.Basic
import Storefront.Number.Decimal
/-!
JSON texts of values, compact and pretty. Only quotes, backslashes and control characters are
escaped, and members are written in their order; the canonical text has them in the order of their keys.
-/

namespace Storefront.Json

/-- Numbers in documents: positional from 0.00001 up to 10^16, and always with a fraction. -/
def numberLayout : Layout := ⟨fun point => -4 ≤ point && point ≤ 16, true, true⟩

def printInt (i : Int) : List Char :=
  (if i < 0 then ['-'] else []) ++ Nat.toDigits 10 i.natAbs

def printNumber : Number → List Char
  | .int i _ => printInt i
  | .float x => numberLayout.write x

def escape (c : Char) : List Char :=
  match c with
  | '"' => ['\\', '"']
  | '\\' => ['\\', '\\']
  | '\n' => ['\\', 'n']
  | '\r' => ['\\', 'r']
  | '\t' => ['\\', 't']
  | '\x08' => ['\\', 'b']
  | '\x0c' => ['\\', 'f']
  | c =>
    if c.toNat < 0x20 then
      ['\\', 'u', '0', '0', Nat.digitChar (c.toNat / 16), Nat.digitChar (c.toNat % 16)]
    else [c]

def quote (s : String) : List Char := '"' :: (s.toList.flatMap escape ++ ['"'])

def printBool (b : Bool) : List Char := if b then ['t', 'r', 'u', 'e'] else ['f', 'a', 'l', 's', 'e']

mutual

def compact : Json → List Char
  | .null => ['n', 'u', 'l', 'l']
  | .bool b => printBool b
  | .num n => printNumber n
  | .str s => quote s
  | .arr [] => ['[', ']']
  | .arr (j :: r) => '[' :: (compact j ++ compactItems r)
  | .obj [] => ['\x7b', '\x7d']
  | .obj ((k, j) :: r) => '\x7b' :: (quote k ++ ':' :: (compact j ++ compactMembers r))

def compactItems : List Json → List Char
  | [] => [']']
  | j :: r => ',' :: (compact j ++ compactItems r)

def compactMembers : List (String × Json) → List Char
  | [] => ['\x7d']
  | (k, j) :: r => ',' :: (quote k ++ ':' :: (compact j ++ compactMembers r))

end

def newline (d : Nat) : List Char := '\n' :: List.replicate (2 * d) ' '

mutual

/-- The value with every item and member on a line of its own, two spaces deeper than its
container; an empty container stays closed. -/
def prettyAt (d : Nat) : Json → List Char
  | .arr (j :: r) => '[' :: (newline (d + 1) ++ prettyAt (d + 1) j ++ prettyItems d r)
  | .obj ((k, j) :: r) =>
    '\x7b' :: (newline (d + 1) ++ quote k ++ ':' :: ' ' :: (prettyAt (d + 1) j ++ prettyMembers d r))
  | .null => ['n', 'u', 'l', 'l']
  | .bool b => printBool b
  | .num n => printNumber n
  | .str s => quote s
  | .arr [] => ['[', ']']
  | .obj [] => ['\x7b', '\x7d']

def prettyItems (d : Nat) : List Json → List Char
  | [] => newline d ++ [']']
  | j :: r => ',' :: (newline (d + 1) ++ prettyAt (d + 1) j ++ prettyItems d r)

def prettyMembers (d : Nat) : List (String × Json) → List Char
  | [] => newline d ++ ['\x7d']
  | (k, j) :: r =>
    ',' :: (newline (d + 1) ++ quote k ++ ':' :: ' ' :: (prettyAt (d + 1) j ++ prettyMembers d r))

end

def print (j : Json) : String := String.ofList j.compact

def pretty (j : Json) : String := String.ofList (prettyAt 0 j)

mutual

def sorted : Json → Json
  | .arr items => .arr (sortedItems items)
  | .obj members => .obj (Entries.sortByKey (sortedMembers members))
  | j => j

def sortedItems : List Json → List Json
  | [] => []
  | j :: r => sorted j :: sortedItems r

def sortedMembers : List (String × Json) → List (String × Json)
  | [] => []
  | (k, j) :: r => (k, sorted j) :: sortedMembers r

end

def canonical (j : Json) : String := j.sorted.print

end Storefront.Json
