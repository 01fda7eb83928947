import Storefront.Theme.Rejection
import Storefront.Catalog.Basic
/-!
The manifest of a page: its blocks under keys made of type and position, each with the variant and the
declared settings, and the order of the keys.
-/

namespace Storefront

structure Manifest.Entry where
  type : String
  settings : Entries Json
  deriving DecidableEq

structure Manifest where
  sections : Entries Manifest.Entry
  order : List String
  deriving DecidableEq

namespace Manifest

def empty : Manifest := ⟨[], []⟩

def key (type : String) (i : Nat) : String := "builder_" ++ type ++ "_" ++ toString i

/-- The values of the declared settings after those collected in `acc`; none may be missing. -/
def collect (b : Block) (acc : Entries Json) : List Setting → Except Rejection (Entries Json)
  | [] => .ok acc
  | d :: r =>
    match b.settings.get? d.id with
    | some value => collect b (acc.put d.id value) r
    | none => .error (.badSetting b.id d.id "declared setting is missing")

def entry (c : Catalog) (b : Block) : Except Rejection Entry :=
  match c.section? b.type with
  | none => .error (.unknownType b.id b.type)
  | some s => (collect b [(variantKey, .str b.variant)] s.settings).map (Entry.mk b.type)

def add (c : Catalog) (m : Manifest) (i : Nat) : List Block → Except Rejection Manifest
  | [] => .ok m
  | b :: r =>
    match entry c b with
    | .error e => .error e
    | .ok e =>
      let k := key b.type i
      add c ⟨m.sections.put k e, m.order ++ [k]⟩ (i + 1) r

def ofPage (c : Catalog) (p : Page) : Except Rejection Manifest := add c empty 0 p.blocks

def Entry.toJson (e : Entry) : Json := .obj [("type", .str e.type), ("settings", .obj e.settings)]

def toJson (m : Manifest) : Json :=
  .obj [("sections", .obj (m.sections.mapValues Entry.toJson)), ("order", .ofStrings m.order)]

def Entry.ofJson? (j : Json) : Option Entry := do
  let r ← Json.Record.ofJson? ["type", "settings"] j
  return { type := ← r.get? "type" Json.string?, settings := ← r.get? "settings" Json.map? }

def interest : Json.Interest :=
  .fields [("sections", .each (.fields [("type", .all), ("settings", .all)])), ("order", .all)]

def entries? (j : Json) : Option (Entries Entry) := do
  let members ← j.members?
  let entries ← members.mapM fun m => (Entry.ofJson? m.2).map (m.1, ·)
  return Entries.settle entries

def ofJson? (j : Json) : Option Manifest := do
  let r ← Json.Record.ofJson? ["sections", "order"] j
  let sections ← r.get? "sections" entries?
  let order ← r.get? "order" (Json.list? Json.string?)
  return { sections, order }

def ofText? (text : String) : Option Manifest :=
  match Json.readWanted interest (Utf8.ofString text) with
  | .ok j => ofJson? j
  | .error _ => none

end Manifest

/-- The types of a page without repetition, each where it first stands. -/
def Page.types (p : Page) : List String :=
  p.blocks.foldl (fun ts b => if b.type ∈ ts then ts else ts ++ [b.type]) []

end Storefront
