import Storefront.Catalog.Basic
/-!
Sections from a folder: every file `x.json` with a definition and a file `x.liquid` beside it with the
markup, in the order of the names. What is not such a pair is passed over.
-/

namespace Storefront

/-- What a path leads to when a folder is looked for. A name without bytes is no readable file. -/
inductive Folder where
  | missing
  | notFolder
  | files (files : Entries (Option (List UInt8)))
  deriving DecidableEq

namespace Folder

/-- The name without the ending `.json`. Nothing but the ending is a name without ending. -/
def stem? (name : String) : Option String :=
  match name.toList.reverse with
  | 'n' :: 'o' :: 's' :: 'j' :: '.' :: c :: r => some (String.ofList (c :: r).reverse)
  | _ => none

def bytes? (files : Entries (Option (List UInt8))) (name : String) : Option (List UInt8) :=
  (files.get? name).bind id

def pair? (files : Entries (Option (List UInt8))) (name : String) : Option Catalog.Entry := do
  let stem ← stem? name
  let s ← Section.ofBytes? (← bytes? files name)
  let body ← Utf8.toString? (← bytes? files (stem ++ ".liquid"))
  return .fixed s body

def pairs (files : Entries (Option (List UInt8))) : List Catalog.Entry :=
  files.sortByKey.keys.filterMap (pair? files)

end Folder

namespace Catalog

inductive LoadFault where
  | notFolder
  | refused (refusal : Refusal)
  deriving DecidableEq, Repr

def LoadFault.message : LoadFault → String
  | .notFolder => "Failed to read section directory: Not a directory (os error 20)"
  | .refused refusal => refusal.message

def registerAll (c : Catalog) (count : Nat) : List Entry → Catalog × Except Refusal Nat
  | [] => (c, .ok count)
  | e :: r =>
    match c.register e with
    | .ok c => registerAll c (count + 1) r
    | .error refusal => (c, .error refusal)

/-- Adds the sections of a folder and tells how many they were. What is registered before a refusal
stays; a missing folder holds none. -/
def extend (c : Catalog) : Folder → Catalog × Except LoadFault Nat
  | .missing => (c, .ok 0)
  | .notFolder => (c, .error .notFolder)
  | .files files =>
    let (c, result) := registerAll c 0 (Folder.pairs files)
    (c, result.mapError .refused)

def load (f : Folder) : Except LoadFault Catalog :=
  match empty.extend f with
  | (c, .ok _) => .ok c
  | (_, .error fault) => .error fault

end Catalog

end Storefront
