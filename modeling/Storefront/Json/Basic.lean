import Storefront.Entries
import Storefront.Number.Binary64
/-!
JSON values. Integers from -2^63 up to 2^64 - 1 are kept exactly and every other number is a double;
objects keep the order of their members.
-/

namespace Storefront

/-- A number of a document: an integer from -2^63 up to 2^64 - 1, or a double. -/
inductive Json.Number where
  | int (value : Int) (inRange : -0x8000000000000000 ≤ value ∧ value < 0x10000000000000000)
  | float (value : Binary64)
  deriving DecidableEq

inductive Json where
  | null
  | bool (value : Bool)
  | num (value : Json.Number)
  | str (value : String)
  | arr (items : List Json)
  | obj (members : List (String × Json))
  deriving Inhabited

namespace Json

namespace Number

/-- The integer, exactly where a document keeps it. -/
def ofInt (i : Int) : Number :=
  if h : -0x8000000000000000 ≤ i ∧ i < 0x10000000000000000 then .int i h
  else .float (Binary64.ofInt i)

def toBinary64 : Number → Binary64
  | .int i _ => Binary64.ofInt i
  | .float x => x

def toNat? : Number → Option Nat
  | .int i _ => if 0 ≤ i then some i.toNat else none
  | .float _ => none

end Number

def ofNat (n : Nat) : Json := .num (.ofInt n)

def ofOption : Option String → Json
  | some s => .str s
  | none => .null

def ofStrings (l : List String) : Json := .arr (l.map .str)

def string? : Json → Option String
  | .str s => some s
  | _ => none

def bool? : Json → Option Bool
  | .bool b => some b
  | _ => none

def number? : Json → Option Number
  | .num n => some n
  | _ => none

def nat? (j : Json) : Option Nat := j.number? >>= Number.toNat?

def items? : Json → Option (List Json)
  | .arr items => some items
  | _ => none

def members? : Json → Option (Entries Json)
  | .obj members => some members
  | _ => none

mutual

def decEq : (a b : Json) → Decidable (a = b)
  | .null, .null => isTrue rfl
  | .bool a, .bool b => decidable_of_iff (a = b) (by simp)
  | .num a, .num b => decidable_of_iff (a = b) (by simp)
  | .str a, .str b => decidable_of_iff (a = b) (by simp)
  | .arr a, .arr b => @decidable_of_iff _ (a = b) (by simp) (decEqItems a b)
  | .obj a, .obj b => @decidable_of_iff _ (a = b) (by simp) (decEqMembers a b)
  | .null, .bool _ | .null, .num _ | .null, .str _ | .null, .arr _ | .null, .obj _ => isFalse nofun
  | .bool _, .null | .bool _, .num _ | .bool _, .str _ | .bool _, .arr _ | .bool _, .obj _ =>
    isFalse nofun
  | .num _, .null | .num _, .bool _ | .num _, .str _ | .num _, .arr _ | .num _, .obj _ => isFalse nofun
  | .str _, .null | .str _, .bool _ | .str _, .num _ | .str _, .arr _ | .str _, .obj _ => isFalse nofun
  | .arr _, .null | .arr _, .bool _ | .arr _, .num _ | .arr _, .str _ | .arr _, .obj _ => isFalse nofun
  | .obj _, .null | .obj _, .bool _ | .obj _, .num _ | .obj _, .str _ | .obj _, .arr _ => isFalse nofun

def decEqItems : (a b : List Json) → Decidable (a = b)
  | [], [] => isTrue rfl
  | [], _ :: _ | _ :: _, [] => isFalse nofun
  | a :: r, b :: s =>
    match decEq a b, decEqItems r s with
    | isTrue h, isTrue h' => isTrue (by rw [h, h'])
    | isFalse h, _ => isFalse (by simp [h])
    | _, isFalse h => isFalse (by simp [h])

def decEqMembers : (a b : List (String × Json)) → Decidable (a = b)
  | [], [] => isTrue rfl
  | [], _ :: _ | _ :: _, [] => isFalse nofun
  | (k, a) :: r, (j, b) :: s =>
    if hk : k = j then
      match decEq a b, decEqMembers r s with
      | isTrue h, isTrue h' => isTrue (by rw [hk, h, h'])
      | isFalse h, _ => isFalse (by simp [h])
      | _, isFalse h => isFalse (by simp [h])
    else isFalse (by simp [hk])

end

instance : DecidableEq Json := decEq

mutual

/-- Does no object of the value, at any depth, repeat a key? -/
def NoRepeats : Json → Prop
  | .arr items => NoRepeatsItems items
  | .obj members => (members.map Prod.fst).Nodup ∧ NoRepeatsMembers members
  | _ => True

def NoRepeatsItems : List Json → Prop
  | [] => True
  | j :: r => NoRepeats j ∧ NoRepeatsItems r

def NoRepeatsMembers : List (String × Json) → Prop
  | [] => True
  | (_, j) :: r => NoRepeats j ∧ NoRepeatsMembers r

end

/-! Repeated keys: a key keeps its first place and its last value. -/

mutual

def settled : Json → Json
  | .arr items => .arr (settledItems items)
  | .obj members => .obj (Entries.settle (settledMembers members))
  | j => j

def settledItems : List Json → List Json
  | [] => []
  | j :: r => settled j :: settledItems r

def settledMembers : List (String × Json) → List (String × Json)
  | [] => []
  | (k, j) :: r => (k, settled j) :: settledMembers r

end

end Json

end Storefront
