import Storefront.Json.Reader
import Storefront.Json.Record
/-! What is wrong with a page, block by block, and the report that collects it; both also as JSON. -/

namespace Storefront

namespace Violation

inductive Kind where
  | unknownType
  | unknownVariant
  | repeatedId
  | badSetting
  deriving DecidableEq, Repr

inductive Severity where
  | error
  | warning
  deriving DecidableEq, Repr

def Kind.name : Kind → String
  | .unknownType => "unknown_section_type"
  | .unknownVariant => "unknown_variant"
  | .repeatedId => "duplicate_instance_id"
  | .badSetting => "invalid_setting_value"

def Kind.ofName? : String → Option Kind
  | "unknown_section_type" => some .unknownType
  | "unknown_variant" => some .unknownVariant
  | "duplicate_instance_id" => some .repeatedId
  | "invalid_setting_value" => some .badSetting
  | _ => none

def Severity.name : Severity → String
  | .error => "error"
  | .warning => "warning"

def Severity.ofName? : String → Option Severity
  | "error" => some .error
  | "warning" => some .warning
  | _ => none

end Violation

structure Violation where
  rule : String
  kind : Violation.Kind
  severity : Violation.Severity
  position : Nat
  blockId : String
  settingId : Option String
  message : String
  expected : Option String
  actual : Option String
  deriving DecidableEq, Repr

structure Report where
  valid : Bool
  violations : List Violation
  checked : Nat
  deriving DecidableEq, Repr

namespace Violation

def isError (v : Violation) : Bool := v.severity == .error

def toJson (v : Violation) : Json :=
  .obj ([("rule", .str v.rule), ("kind", .str v.kind.name), ("severity", .str v.severity.name),
    ("position", .ofNat v.position), ("instance_id", .str v.blockId)] ++
    (v.settingId.toList.map fun id => ("setting_id", .str id)) ++
    [("message", .str v.message), ("expected", .ofOption v.expected), ("actual", .ofOption v.actual)])

def name? : Json → Option String
  | .str name => some name
  | .obj [(name, .null)] => some name
  | _ => none

def interest : Json.Interest :=
  .fields (["rule", "kind", "severity", "position", "instance_id", "setting_id", "message", "expected",
    "actual"].map fun name => (name, .all))

def ofJson? (j : Json) : Option Violation := do
  let r ← Json.Record.ofJson? ["rule", "kind", "severity", "position", "instance_id", "setting_id",
    "message", "expected", "actual"] j
  let rule ← r.get? "rule" Json.string?
  let kind ← r.get? "kind" fun j => name? j >>= Kind.ofName?
  let severity ← r.get? "severity" fun j => name? j >>= Severity.ofName?
  let position ← r.get? "position" Json.nat?
  let blockId ← r.get? "instance_id" Json.string?
  let settingId ← r.optional? "setting_id" Json.string?
  let message ← r.get? "message" Json.string?
  let expected ← r.optional? "expected" Json.string?
  let actual ← r.optional? "actual" Json.string?
  return { rule, kind, severity, position, blockId, settingId, message, expected, actual }

end Violation

namespace Report

def hasErrors (r : Report) : Bool := r.violations.any (·.isError)

def least (best : Option Violation) (v : Violation) : Option Violation :=
  match best with
  | none => some v
  | some b => if v.position < b.position then some v else some b

/-- The first error among those with the least position. -/
def firstError? (r : Report) : Option Violation :=
  (r.violations.filter (·.isError)).foldl least none

def warnings (r : Report) : List Violation := r.violations.filter (·.severity == .warning)

def toJson (r : Report) : Json :=
  .obj [("valid", .bool r.valid), ("violations", .arr (r.violations.map Violation.toJson)),
    ("sections_checked", .ofNat r.checked)]

def interest : Json.Interest :=
  .fields [("valid", .all), ("violations", .each Violation.interest), ("sections_checked", .all)]

def ofJson? (j : Json) : Option Report := do
  let r ← Json.Record.ofJson? ["valid", "violations", "sections_checked"] j
  let valid ← r.get? "valid" Json.bool?
  let violations ← r.get? "violations" (Json.list? Violation.ofJson?)
  let checked ← r.get? "sections_checked" Json.nat?
  return { valid, violations, checked }

def ofText? (text : String) : Option Report :=
  match Json.readWanted interest (Utf8.ofString text) with
  | .ok j => ofJson? j
  | .error _ => none

end Report

end Storefront
