import Storefront.Section.Schema
import Storefront.Page.Editing
import Storefront.Stock.Sections
import Storefront.Stock.Markup
import Storefront.Text.Characters
/-! Catalogs: the registered sections in the order of their registration, each with its markup. -/

namespace Storefront

structure Catalog.Entry where
  definition : Section
  markup : Section → String

structure Catalog where
  entries : List Catalog.Entry

namespace Catalog

inductive Refusal where
  | repeatedType (type : String)
  | defective (type : String) (defect : Section.Defect)
  deriving DecidableEq, Repr

def Refusal.message : Refusal → String
  | .repeatedType type => "Section type already registered: " ++ type
  | .defective type defect => "Invalid section definition '" ++ type ++ "': " ++ defect.message

namespace Entry

def type (e : Entry) : String := e.definition.type

def fixed (s : Section) (body : String) : Entry := ⟨s, fun _ => body⟩

/-- The template: the markup without white space at its end, and the schema after a blank line. -/
def template (e : Entry) : String :=
  Text.trimEnd (e.markup e.definition) ++ "\n\n" ++ Liquid.tag "schema" ++ "\n" ++
    (Schema.ofSection e.definition).toJson.pretty ++ "\n" ++ Liquid.tag "endschema" ++ "\n"

end Entry

def empty : Catalog := ⟨[]⟩

def stock : Catalog where
  entries := [
    .fixed Stock.header Stock.headerMarkup,
    .fixed Stock.hero Stock.heroMarkup,
    .fixed Stock.banner Stock.bannerMarkup,
    ⟨Stock.grid, Stock.gridMarkup⟩,
    .fixed Stock.footer Stock.footerMarkup]

def entry? (c : Catalog) (type : String) : Option Entry := c.entries.find? (·.type == type)

def section? (c : Catalog) (type : String) : Option Section := (c.entry? type).map (·.definition)

def sections (c : Catalog) : List Section := c.entries.map (·.definition)

def register (c : Catalog) (e : Entry) : Except Refusal Catalog :=
  if (c.entry? e.type).isSome then .error (.repeatedType e.type)
  else match e.definition.defect? with
    | some defect => .error (.defective e.type defect)
    | none => .ok ⟨c.entries ++ [e]⟩

/-- A new block of a type, with its first variant and every default. -/
def block? (c : Catalog) (type id : String) : Option Block := do
  let s ← c.section? type
  let v ← s.defaultVariant?
  return { id, type := s.type, variant := v.id, settings := s.defaults }

def addBlock? (c : Catalog) (p : Page) (type id : String) : Option Page := (c.block? type id).map p.push

end Catalog

end Storefront
