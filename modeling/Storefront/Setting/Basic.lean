import Storefront.Json.Basic
/-! Settings that a section declares: what an editor shows, and which values it may hold. -/

namespace Storefront

structure Choice where
  label : String
  value : String
  deriving DecidableEq, Repr

inductive Setting.Kind where
  | text
  | textarea
  | color
  | number
  | range (min max step : Binary64) (unit : Option String)
  | select (options : List Choice)
  | imagePicker
  | checkbox
  deriving DecidableEq, Repr

structure Setting where
  id : String
  label : String
  default : Json
  kind : Setting.Kind
  deriving DecidableEq

namespace Setting

def Kind.name : Kind → String
  | .text => "text"
  | .textarea => "textarea"
  | .color => "color"
  | .number => "number"
  | .range .. => "range"
  | .select _ => "select"
  | .imagePicker => "image_picker"
  | .checkbox => "checkbox"

def Kind.names : List String :=
  ["text", "textarea", "color", "number", "range", "select", "image_picker", "checkbox"]

def Kind.wholeRange (min max step : Nat) (unit : Option String) : Kind :=
  .range (.ofInt min) (.ofInt max) (.ofInt step) unit

end Setting

end Storefront
