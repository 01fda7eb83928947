import Storefront.Section.Defect
/-!
The schema of a section, which tells an editor what can be set: first the variant, then every setting
as declared. Whole bounds are written as integers.
-/

namespace Storefront

inductive Schema.Details where
  | none
  | bounds (min max step : Json.Number) (unit : Option String)
  | choices (list : List Choice)
  deriving DecidableEq

structure Schema.Field where
  type : String
  id : String
  label : String
  default : Json
  details : Schema.Details
  deriving DecidableEq

structure Schema where
  name : String
  tag : String
  styleClass : String
  fields : List Schema.Field
  presets : List String
  deriving DecidableEq

namespace Schema

/-- The number as an integer if it is one below 2^63 in magnitude. -/
def boundNumber (x : Binary64) : Json.Number :=
  match x.toInt? with
  | some i => if i.natAbs < 0x8000000000000000 then .ofInt i else .float x
  | none => .float x

def detailsOf : Setting.Kind → Details
  | .range min max step unit => .bounds (boundNumber min) (boundNumber max) (boundNumber step) unit
  | .select options => .choices options
  | _ => .none

def Field.ofSetting (s : Setting) : Field :=
  { type := s.kind.name, id := s.id, label := s.label, default := s.default, details := detailsOf s.kind }

def Field.ofVariants (s : Section) : Field :=
  { type := "select"
    id := variantKey
    label := "Style"
    default := Json.ofOption (s.defaultVariant?.map (·.id))
    details := .choices (s.variants.map fun v => ⟨v.name, v.id⟩) }

def ofSection (s : Section) : Schema :=
  { name := s.name
    tag := "section"
    styleClass := "section-" ++ s.type
    fields := .ofVariants s :: s.settings.map .ofSetting
    presets := [s.name] }

def Details.members : Details → List (String × Json)
  | .none => []
  | .bounds min max step unit =>
    [("min", .num min), ("max", .num max), ("step", .num step)] ++
      unit.toList.map fun u => ("unit", .str u)
  | .choices list => [("options", .arr (list.map Choice.toJson))]

def Field.toJson (f : Field) : Json :=
  .obj ([("type", .str f.type), ("id", .str f.id), ("label", .str f.label), ("default", f.default)]
    ++ f.details.members)

def toJson (s : Schema) : Json :=
  .obj [("name", .str s.name), ("tag", .str s.tag), ("class", .str s.styleClass),
    ("settings", .arr (s.fields.map Field.toJson)),
    ("presets", .arr (s.presets.map fun name => .obj [("name", .str name)]))]

end Schema

end Storefront
