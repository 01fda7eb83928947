import Storefront.Setting.Document
import Storefront.Json.Reader
/-! Sections: a type of page block, its variants and the settings it declares; and sections as JSON. -/

namespace Storefront

structure Variant where
  id : String
  name : String
  deriving DecidableEq, Repr

structure Section where
  type : String
  name : String
  variants : List Variant
  settings : List Setting
  deriving DecidableEq

namespace Variant

def toJson (v : Variant) : Json := .obj [("id", .str v.id), ("name", .str v.name)]

def ofJson? (j : Json) : Option Variant := do
  let r ← Json.Record.ofJson? ["id", "name"] j
  return { id := ← r.get? "id" Json.string?, name := ← r.get? "name" Json.string? }

end Variant

namespace Section

def setting? (s : Section) (id : String) : Option Setting := s.settings.find? (·.id == id)

def hasVariant (s : Section) (id : String) : Bool := s.variants.any (·.id == id)

theorem setting?_eq_none_iff {s : Section} {id : String} :
    s.setting? id = none ↔ id ∉ s.settings.map (·.id) := by
  simp [setting?]

theorem hasVariant_iff {s : Section} {id : String} :
    s.hasVariant id = true ↔ id ∈ s.variants.map (·.id) := by
  simp [hasVariant]

def defaultVariant? (s : Section) : Option Variant := s.variants.head?

def defaults (s : Section) : Entries Json := Entries.settle (s.settings.map fun d => (d.id, d.default))

def toJson (s : Section) : Json :=
  .obj [("type", .str s.type), ("name", .str s.name), ("variants", .arr (s.variants.map Variant.toJson)),
    ("settings", .arr (s.settings.map Setting.toJson))]

def interest : Json.Interest :=
  .fields [("type", .all), ("name", .all),
    ("variants", .each (.fields [("id", .all), ("name", .all)])), ("settings", .all)]

def ofJson? (j : Json) : Option Section := do
  let r ← Json.Record.ofJson? ["type", "name", "variants", "settings"] j
  let type ← r.get? "type" Json.string?
  let name ← r.get? "name" Json.string?
  let variants ← r.get? "variants" (Json.list? Variant.ofJson?)
  let settings ← r.getD? "settings" [] (Json.list? Setting.ofJson?)
  return { type, name, variants, settings }

def ofBytes? (bs : List UInt8) : Option Section :=
  match Json.readWanted interest bs with
  | .ok j => ofJson? j
  | .error _ => none

end Section

end Storefront
