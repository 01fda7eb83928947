import Storefront.Setting.Basic
import Storefront.Json.Record
/-!
Settings as JSON. The kind is spread over the members of its setting: `type` names it, and the others
hold its bounds or options.
-/

namespace Storefront

namespace Choice

def toJson (c : Choice) : Json := .obj [("label", .str c.label), ("value", .str c.value)]

def ofJson? (j : Json) : Option Choice := do
  let r ← Json.Record.ofJson? ["label", "value"] j
  return { label := ← r.get? "label" Json.string?, value := ← r.get? "value" Json.string? }

end Choice

namespace Setting

namespace Kind

def members : Kind → List (String × Json)
  | .range min max step unit =>
    [("min", .num (.float min)), ("max", .num (.float max)), ("step", .num (.float step))] ++
      unit.toList.map fun u => ("unit", .str u)
  | .select options => [("options", .arr (options.map Choice.toJson))]
  | _ => []

def fieldNames (name : String) : List String :=
  if name = "range" then ["min", "max", "step", "unit"]
  else if name = "select" then ["options"]
  else []

def binary64? (j : Json) : Option Binary64 := j.number?.map Json.Number.toBinary64

def ofRecord? (name : String) (r : Json.Record) : Option Kind :=
  match name with
  | "text" => some .text
  | "textarea" => some .textarea
  | "color" => some .color
  | "number" => some .number
  | "range" => do
    let min ← r.get? "min" binary64?
    let max ← r.get? "max" binary64?
    let step ← r.get? "step" binary64?
    let unit ← r.getD? "unit" none fun j => if j = .null then some none else j.string?.map some
    return .range min max step unit
  | "select" => do
    let options ← r.get? "options" (Json.list? Choice.ofJson?)
    return .select options
  | "image_picker" => some .imagePicker
  | "checkbox" => some .checkbox
  | _ => none

/-- The kind that members give: `type` stands once among them, and `tag?` reads the name from it. -/
def ofMembers? (tag? : Json → Option String) (members : List (String × Json)) : Option Kind := do
  let (tags, others) := members.partition fun m => m.1 == "type"
  let [tag] := tags | none
  let name ← tag? tag.2
  ofRecord? name (← Json.Record.ofMembers? (fieldNames name) others)

def ofJson? : Json → Option Kind
  | .obj members => ofMembers? Json.string? members
  | .arr (.str name :: fields) => do
    ofRecord? name (← Json.Record.ofJson? (fieldNames name) (.arr fields))
  | _ => none

/-- The name of the kind inside a setting, which may also be given by its place in the list of names. -/
def tag? : Json → Option String
  | .str name => some name
  | j => j.nat? >>= (names[·]?)

end Kind

def member? (members : List (String × Json)) (name : String) : Option Json :=
  match members.filter fun m => m.1 == name with
  | [m] => some m.2
  | _ => none

def toJson (s : Setting) : Json :=
  .obj ([("id", .str s.id), ("label", .str s.label), ("default", s.default), ("type", .str s.kind.name)]
    ++ s.kind.members)

def ofJson? (j : Json) : Option Setting := do
  let members ← j.members?
  let id ← (← member? members "id").string?
  let label ← (← member? members "label").string?
  let default ← member? members "default"
  let kind ← Kind.ofMembers? Kind.tag?
    (members.filter fun m => m.1 ∉ ["id", "label", "default"])
  return { id, label, default := default.settled, kind }

end Setting

end Storefront
