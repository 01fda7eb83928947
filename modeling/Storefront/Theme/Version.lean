import Storefront.Text.Characters
/-!
Versions of themes: three numbers, and identifiers of a pre-release and of a build, as semantic
versioning has them.
-/

namespace Storefront

/-- A version. An empty text stands for no pre-release or no build. -/
structure Version where
  major : Nat
  minor : Nat
  patch : Nat
  preRelease : String
  build : String
  deriving DecidableEq, Repr

namespace Version

inductive Part where
  | major
  | minor
  | patch
  | preRelease
  | build
  deriving DecidableEq, Repr

inductive Fault where
  | empty
  | ended (part : Part)
  | badCharacter (part : Part) (c : Char)
  | badCharacterAfter (part : Part) (c : Char)
  | leadingZero (part : Part)
  | tooLarge (part : Part)
  | emptySegment (part : Part)
  deriving DecidableEq, Repr

def Part.name : Part → String
  | .major => "major version number"
  | .minor => "minor version number"
  | .patch => "patch version number"
  | .preRelease => "pre-release identifier"
  | .build => "build metadata"

def Fault.message : Fault → String
  | .empty => "empty string, expected a semver version"
  | .ended part => "unexpected end of input while parsing " ++ part.name
  | .badCharacter part c => "unexpected character " ++ Text.showChar c ++ " while parsing " ++ part.name
  | .badCharacterAfter part c => "unexpected character " ++ Text.showChar c ++ " after " ++ part.name
  | .leadingZero part => "invalid leading zero in " ++ part.name
  | .tooLarge part => "value of " ++ part.name ++ " exceeds u64::MAX"
  | .emptySegment part => "empty identifier segment in " ++ part.name

/-- The digits of a number after `value`, which `some` digits have given so far. -/
def readDigits (part : Part) (some? : Bool) (value : Nat) : List Char → Except Fault (Nat × List Char)
  | [] => if some? then .ok (value, []) else .error (.ended part)
  | c :: r =>
    if c.isDigit then
      let next := 10 * value + (c.toNat - 48)
      if some? && value = 0 then .error (.leadingZero part)
      else if next < 0x10000000000000000 then readDigits part true next r
      else .error (.tooLarge part)
    else if some? then .ok (value, c :: r)
    else .error (.badCharacter part c)

def readNumber (part : Part) (cs : List Char) : Except Fault (Nat × List Char) := readDigits part false 0 cs

def readDot (part : Part) : List Char → Except Fault (List Char)
  | [] => .error (.ended part)
  | '.' :: r => .ok r
  | c :: _ => .error (.badCharacterAfter part c)

def isSegmentCharacter (c : Char) : Bool := c.isAlphanum || c == '-'

def hasLeadingZero (segment : List Char) : Bool :=
  segment.all Char.isDigit && 1 < segment.length && segment.head? == some '0'

def readSegments (part : Part) (acc segment : List Char) :
    List Char → Except Fault (List Char × List Char)
  | [] =>
    if segment = [] then if acc = [] then .ok ([], []) else .error (.emptySegment part)
    else if part = .preRelease ∧ hasLeadingZero segment.reverse then .error (.leadingZero part)
    else .ok ((segment ++ acc).reverse, [])
  | c :: r =>
    if isSegmentCharacter c then readSegments part acc (c :: segment) r
    else if segment = [] then
      if acc = [] ∧ c ≠ '.' then .ok ([], c :: r) else .error (.emptySegment part)
    else if part = .preRelease ∧ hasLeadingZero segment.reverse then .error (.leadingZero part)
    else if c = '.' then readSegments part ('.' :: (segment ++ acc)) [] r
    else .ok ((segment ++ acc).reverse, c :: r)

/-- What follows `mark`, if it is there, as segments; there must be at least one. -/
def readMarked (mark : Char) (before part : Part) :
    List Char → Except Fault (Part × List Char × List Char)
  | [] => .ok (before, [], [])
  | c :: r =>
    if c = mark then
      match readSegments part [] [] r with
      | .error fault => .error fault
      | .ok ([], _) => .error (.emptySegment part)
      | .ok (segments, r) => .ok (part, segments, r)
    else .ok (before, [], c :: r)

def ofText (text : String) : Except Fault Version := do
  if text = "" then throw .empty
  let (major, r) ← readNumber .major text.toList
  let (minor, r) ← readNumber .minor (← readDot .major r)
  let (patch, r) ← readNumber .patch (← readDot .minor r)
  let (part, preRelease, r) ← readMarked '-' .patch .preRelease r
  let (part, build, r) ← readMarked '+' part .build r
  match r with
  | [] => return { major, minor, patch,
                   preRelease := String.ofList preRelease, build := String.ofList build }
  | c :: _ => throw (.badCharacterAfter part c)

def toText (v : Version) : String :=
  toString v.major ++ "." ++ toString v.minor ++ "." ++ toString v.patch ++
    (if v.preRelease = "" then "" else "-" ++ v.preRelease) ++
    (if v.build = "" then "" else "+" ++ v.build)

end Version

end Storefront
