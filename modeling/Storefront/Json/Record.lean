import Storefront.Json.Basic
/-!
Records written as JSON: an object with one member for each field, in any order and among members that
are no fields, or a list of the fields in the order of their declaration.
-/

namespace Storefront.Json

structure Record where
  listed : Bool
  fields : Entries Json

namespace Record

def ofMembers? (names : List String) (members : List (String × Json)) : Option Record :=
  let known := members.filter fun m => names.contains m.1
  if (known.map Prod.fst).Nodup then some ⟨false, known⟩ else none

/-- The record that a value is. A list may end early but not run over. -/
def ofJson? (names : List String) : Json → Option Record
  | .obj members => ofMembers? names members
  | .arr items => if items.length ≤ names.length then some ⟨true, names.zip items⟩ else none
  | _ => none

def get? {α : Type} (r : Record) (name : String) (f : Json → Option α) : Option α :=
  (r.fields.lookup name).bind f

def getD? {α : Type} (r : Record) (name : String) (value : α) (f : Json → Option α) : Option α :=
  match r.fields.lookup name with
  | some j => f j
  | none => some value

/-- A field that an object may leave out, and that may be null. -/
def optional? {α : Type} (r : Record) (name : String) (f : Json → Option α) : Option (Option α) :=
  match r.fields.lookup name with
  | some .null => some none
  | some j => (f j).map some
  | none => if r.listed then none else some none

end Record

def list? {α : Type} (f : Json → Option α) (j : Json) : Option (List α) := j.items? >>= (·.mapM f)

def map? (j : Json) : Option (Entries Json) := j.settled.members?

end Storefront.Json
