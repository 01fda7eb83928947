import Storefront.Json.Literal
import Storefront.Json.Quoted
/-!
Values read from bytes, with the members of an object as they stand, repeated keys included. A reader
that wants only some parts of a document checks no more than the outline of the others.
-/

namespace Storefront.Json

/-- The parts of a document that are read; others may hold texts that are no Unicode, numbers out of
range and any depth of nesting, and are read as null. -/
inductive Interest where
  | all
  | none
  | each (inner : Interest)
  | fields (inner : List (String × Interest))

namespace Interest

def item (w : Interest) (i : Nat) : Interest :=
  match w with
  | .fields fs => match fs[i]? with
    | some f => f.2
    | .none => .all
  | .each inner => inner
  | w => w

def member (w : Interest) (k : String) : Interest :=
  match w with
  | .fields fs => (fs.lookup k).getD .none
  | .each inner => inner
  | w => w

def isNone : Interest → Bool
  | .none => true
  | _ => false

end Interest

def isSpace (b : UInt8) : Bool := b == 0x20 || b == 0x0A || b == 0x0D || b == 0x09

def dropSpace (bs : List UInt8) : List UInt8 := bs.dropWhile isSpace

def readWord : List Char → List UInt8 → Except Stop (List UInt8)
  | [], bs => .ok bs
  | _ :: _, [] => .error ⟨.endInValue, []⟩
  | c :: cs, b :: r => if b.toNat = c.toNat then readWord cs r else .error ⟨.wantsWord, r⟩

def maxDepth : Nat := 127

mutual

/-- The value at the start of the bytes, and what follows it. `depth` more containers may open;
`fuel` bounds the steps. -/
def readValue : (fuel depth : Nat) → Interest → List UInt8 → Except Stop (Json × List UInt8)
  | 0, _, _, bs => .error (.at .wantsValue bs)
  | fuel + 1, depth, want, bs =>
    match dropSpace bs with
    | [] => .error ⟨.endInValue, []⟩
    | b :: r =>
      if b = 0x22 then
        (Quoted.read (!want.isNone) r).map fun (s, r) => (.str s, r)
      else if b = 0x5B then
        if want.isNone then readItems fuel depth want 0 [] true r
        else match depth with
          | 0 => .error (.at .tooDeep (b :: r))
          | depth + 1 => readItems fuel depth want 0 [] true r
      else if b = 0x7B then
        if want.isNone then readMembers fuel depth want [] true r
        else match depth with
          | 0 => .error (.at .tooDeep (b :: r))
          | depth + 1 => readMembers fuel depth want [] true r
      else if b = 0x6E then (readWord ['u', 'l', 'l'] r).map fun r => (.null, r)
      else if b = 0x74 then (readWord ['r', 'u', 'e'] r).map fun r => (.bool true, r)
      else if b = 0x66 then (readWord ['a', 'l', 's', 'e'] r).map fun r => (.bool false, r)
      else if b = 0x2D || isDigit b then
        match Literal.read (b :: r) with
        | .error stop => .error stop
        | .ok (l, r) => if want.isNone then .ok (.null, r) else (l.number r).map fun n => (.num n, r)
      else .error (.at .wantsValue (b :: r))

/-- The items from place `i` to the end of a list; `acc` holds those before, last first, and
`first` says that the list has only been opened. -/
def readItems : (fuel depth : Nat) → Interest → (i : Nat) → List Json → (first : Bool) →
    List UInt8 → Except Stop (Json × List UInt8)
  | 0, _, _, _, _, _, bs => .error (.at .wantsValue bs)
  | fuel + 1, depth, want, i, acc, first, bs =>
    match dropSpace bs with
    | [] => .error ⟨.endInList, []⟩
    | b :: r =>
      if b = 0x5D then .ok (.arr acc.reverse, r)
      else if first then
        match readValue fuel depth (want.item i) (b :: r) with
        | .error stop => .error stop
        | .ok (j, r) => readItems fuel depth want (i + 1) (j :: acc) false r
      else if b = 0x2C then
        match dropSpace r with
        | [] => .error ⟨.endInValue, []⟩
        | b :: r =>
          if b = 0x5D then .error (.at .trailingComma (b :: r))
          else match readValue fuel depth (want.item i) (b :: r) with
            | .error stop => .error stop
            | .ok (j, r) => readItems fuel depth want (i + 1) (j :: acc) false r
      else .error (.at .wantsCommaOrBracket (b :: r))

def readMembers : (fuel depth : Nat) → Interest → List (String × Json) → (first : Bool) →
    List UInt8 → Except Stop (Json × List UInt8)
  | 0, _, _, _, _, bs => .error (.at .wantsValue bs)
  | fuel + 1, depth, want, acc, first, bs =>
    match dropSpace bs with
    | [] => .error ⟨.endInObject, []⟩
    | b :: r =>
      if b = 0x7D then .ok (.obj acc.reverse, r)
      else if first then
        if b = 0x22 then readMember fuel depth want acc r
        else .error (.at .wantsKey (b :: r))
      else if b = 0x2C then
        match dropSpace r with
        | [] => .error ⟨.endInValue, []⟩
        | b :: r =>
          if b = 0x22 then readMember fuel depth want acc r
          else if b = 0x7D then .error (.at .trailingComma (b :: r))
          else .error (.at .wantsKey (b :: r))
      else .error (.at .wantsCommaOrBrace (b :: r))

def readMember : (fuel depth : Nat) → Interest → List (String × Json) → List UInt8 →
    Except Stop (Json × List UInt8)
  | 0, _, _, _, bs => .error (.at .wantsValue bs)
  | fuel + 1, depth, want, acc, bs =>
    match Quoted.read (!want.isNone) bs with
    | .error stop => .error stop
    | .ok (k, r) =>
      match dropSpace r with
      | [] => .error ⟨.endInObject, []⟩
      | b :: r =>
        if b = 0x3A then
          match readValue fuel depth (want.member k) r with
          | .error stop => .error stop
          | .ok (j, r) => readMembers fuel depth want ((k, j) :: acc) false r
        else .error (.at .wantsColon (b :: r))

end

def readPart (want : Interest) (bs : List UInt8) : Except Stop (Json × List UInt8) :=
  readValue (3 * bs.length + 3) maxDepth want bs

def readEnd (bs : List UInt8) : Except Stop Unit :=
  match dropSpace bs with
  | [] => .ok ()
  | b :: r => .error (.at .trailingCharacters (b :: r))

def readWanted (want : Interest) (bs : List UInt8) : Except Stop Json := do
  let (j, r) ← readPart want bs
  readEnd r
  return j

def ofBytes (bs : List UInt8) : Except Fault Json :=
  ((readWanted .all bs).mapError (Fault.ofStop bs)).map settled

def ofText (text : String) : Except Fault Json := ofBytes (Utf8.ofString text)

end Storefront.Json
