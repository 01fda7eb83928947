import Storefront.Validation.Violation
/-! Why a page does not become a theme. -/

namespace Storefront

inductive Rejection where
  | unknownType (blockId type : String)
  | unknownVariant (blockId variant : String)
  | repeatedId (blockId : String)
  | badSetting (blockId settingId reason : String)
  deriving DecidableEq, Repr

namespace Rejection

def kind : Rejection → String
  | .unknownType .. => Violation.Kind.unknownType.name
  | .unknownVariant .. => Violation.Kind.unknownVariant.name
  | .repeatedId .. => Violation.Kind.repeatedId.name
  | .badSetting .. => Violation.Kind.badSetting.name

def message : Rejection → String
  | .unknownType blockId type => "Unknown section type '" ++ type ++ "' (section " ++ blockId ++ ")"
  | .unknownVariant blockId variant => "Unknown variant '" ++ variant ++ "' (section " ++ blockId ++ ")"
  | .repeatedId blockId => "Duplicate section id '" ++ blockId ++ "'"
  | .badSetting blockId settingId reason =>
    "Invalid value for setting '" ++ settingId ++ "' (section " ++ blockId ++ "): " ++ reason

def ofViolation (v : Violation) : Rejection :=
  match v.kind with
  | .unknownType => .unknownType v.blockId (v.actual.getD "")
  | .unknownVariant => .unknownVariant v.blockId (v.actual.getD "")
  | .repeatedId => .repeatedId v.blockId
  | .badSetting => .badSetting v.blockId (v.settingId.getD "") v.message

end Rejection

end Storefront
