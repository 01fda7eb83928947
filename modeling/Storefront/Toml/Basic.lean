import Storefront.Entries
import Storefront.Number.Decimal
/-!
Values of TOML documents, and how tables grow while a document is read: a table that only stands on
the way to another may still be opened, one that was written or that a dotted key made may not.
-/

namespace Storefront.Toml

inductive Real where
  | finite (x : Binary64)
  | infinite (negative : Bool)
  | nan
  deriving DecidableEq

/-- A value that holds no others. Of a date or time only its presence is kept. -/
inductive Scalar where
  | text (s : String)
  | integer (i : Int)
  | real (x : Real)
  | bool (b : Bool)
  | time
  deriving DecidableEq

inductive Origin where
  | written
  | implied
  | dotted
  deriving DecidableEq

inductive Node where
  | scalar (s : Scalar)
  | array (items : List Node)
  | closed (entries : List (String × Node))
  | table (origin : Origin) (entries : List (String × Node))
  | tables (elements : List (List (String × Node)))
  deriving Inhabited

abbrev Table := Entries Node

/-- Changes the table that `path` leads to from a table; what is missing on the way is made. In an
array of tables the way goes through the last one. A dotted way makes dotted tables and does not
enter written ones. -/
def change {α : Type} (dotted : Bool) (f : Origin → Table → Option (Table × α)) :
    List String → Origin → Table → Option (Table × α)
  | [], origin, t => f origin t
  | k :: path, _, t =>
    match t.get? k with
    | none => do
      let origin := if dotted then .dotted else .implied
      let (inner, a) ← change dotted f path origin []
      return (t.put k (.table origin inner), a)
    | some (.table origin inner) =>
      if dotted && origin == .written then none
      else do
        let (inner, a) ← change dotted f path origin inner
        return (t.put k (.table origin inner), a)
    | some (.tables elements) =>
      match elements.reverse with
      | [] => none
      | last :: before => do
        let (last, a) ← change dotted f path .written last
        return (t.put k (.tables (last :: before).reverse), a)
    | some _ => none

/-- The table with one more key; it must be new, and a dotted key ends in a dotted table. -/
def insertNew (dotted : Bool) (k : String) (v : Node) (origin : Origin) (t : Table) :
    Option (Table × Unit) :=
  if (origin == .dotted) != dotted || t.has k then none else some (t.put k v, ())

def assign (path : List String) (k : String) (v : Node) (t : Table) : Option Table :=
  (change true (insertNew (!path.isEmpty) k v) path .written t).map Prod.fst

end Storefront.Toml
