import Storefront.Section.Basic
import Storefront.Setting.Acceptance
/-!
What keeps a section from being registered. The checks go from the type over the variants to each
setting in turn, and the first one that fails is reported.
-/

namespace Storefront

/-- The key under which a page keeps the variant, so that no setting may have it. -/
def variantKey : String := "variant"

inductive Section.Defect where
  | emptyType
  | typeCharacters (type : String)
  | noVariants
  | repeatedVariant (id : String)
  | reservedSetting
  | repeatedSetting (id : String)
  | emptyRange (id : String)
  | stepNotPositive (id : String)
  | noOptions (id : String)
  | repeatedOption (id value : String)
  | badDefault (id : String) (reason : Setting.Mismatch)
  deriving DecidableEq, Repr

namespace Section

def Defect.message : Defect → String
  | .emptyType => "type must not be empty"
  | .typeCharacters type => "type '" ++ type ++ "' may only contain a-z, 0-9, '_' and '-'"
  | .noVariants => "at least one variant is required"
  | .repeatedVariant id => "duplicate variant id '" ++ id ++ "'"
  | .reservedSetting => "setting id '" ++ variantKey ++ "' is reserved"
  | .repeatedSetting id => "duplicate setting id '" ++ id ++ "'"
  | .emptyRange id => "range '" ++ id ++ "' requires min < max"
  | .stepNotPositive id => "range '" ++ id ++ "' requires step > 0"
  | .noOptions id => "select '" ++ id ++ "' has no options"
  | .repeatedOption id value => "select '" ++ id ++ "' repeats option value '" ++ value ++ "'"
  | .badDefault id reason => "default for '" ++ id ++ "' is invalid: " ++ reason.message

/-- The characters of types, which become parts of paths and of style classes. -/
def isTypeCharacter (c : Char) : Bool :=
  ('a' ≤ c && c ≤ 'z') || ('0' ≤ c && c ≤ '9') || c == '_' || c == '-'

def firstRepeated? (seen : List String) : List String → Option String
  | [] => none
  | s :: r => if s ∈ seen then some s else firstRepeated? (s :: seen) r

def kindDefect? (id : String) : Setting.Kind → Option Defect
  | .range min max step _ =>
    if !min.less max then some (.emptyRange id)
    else if !Binary64.zero.less step then some (.stepNotPositive id)
    else none
  | .select options =>
    if options.isEmpty then some (.noOptions id)
    else (firstRepeated? [] (options.map (·.value))).map (.repeatedOption id)
  | _ => none

def defaultDefect? (s : Setting) : Option Defect :=
  match s.kind.judge s.default with
  | .mismatch reason => some (.badDefault s.id reason)
  | _ => none

def settingsDefect? (seen : List String) : List Setting → Option Defect
  | [] => none
  | s :: r =>
    if s.id = variantKey then some .reservedSetting
    else if s.id ∈ seen then some (.repeatedSetting s.id)
    else (kindDefect? s.id s.kind).or ((defaultDefect? s).or (settingsDefect? (s.id :: seen) r))

def defect? (s : Section) : Option Defect :=
  if s.type = "" then some .emptyType
  else if !s.type.toList.all isTypeCharacter then some (.typeCharacters s.type)
  else if s.variants.isEmpty then some .noVariants
  else match firstRepeated? [] (s.variants.map (·.id)) with
    | some id => some (.repeatedVariant id)
    | none => settingsDefect? [] s.settings

end Section

end Storefront
