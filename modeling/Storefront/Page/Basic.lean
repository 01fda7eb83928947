import Storefront.Digest
import Storefront.Json.Reader
import Storefront.Json.Record
import Storefront.Json.Printer
/-!
Pages: sections placed one below another, each with its own id, variant and values. The hash of a page
does not depend on the order of keys.
-/

namespace Storefront

structure Block where
  id : String
  type : String
  variant : String
  settings : Entries Json
  deriving DecidableEq

structure Page where
  blocks : List Block
  deriving DecidableEq

namespace Block

def toJson (b : Block) : Json :=
  .obj [("id", .str b.id), ("type", .str b.type), ("variant", .str b.variant),
    ("settings", .obj b.settings)]

def interest : Json.Interest :=
  .fields [("id", .all), ("type", .all), ("variant", .all), ("settings", .all)]

def ofJson? (j : Json) : Option Block := do
  let r ← Json.Record.ofJson? ["id", "type", "variant", "settings"] j
  let id ← r.get? "id" Json.string?
  let type ← r.get? "type" Json.string?
  let variant ← r.get? "variant" Json.string?
  let settings ← r.getD? "settings" [] Json.map?
  return { id, type, variant, settings }

def ofText? (text : String) : Option Block :=
  match Json.readWanted interest (Utf8.ofString text) with
  | .ok j => ofJson? j
  | .error _ => none

end Block

namespace Page

def empty : Page := ⟨[]⟩

inductive Fault where
  | text (fault : Json.Fault)
  | shape
  deriving DecidableEq

def Fault.message : Fault → String
  | .text fault => fault.message
  | .shape => "data did not match any variant of untagged enum PageBody"

def toJson (p : Page) : Json := .arr (p.blocks.map Block.toJson)

/-- The list of blocks, or an object that holds it once under `sections`. -/
def ofJson? : Json → Option Page
  | .arr items => (items.mapM Block.ofJson?).map Page.mk
  | .obj members =>
    match members.filter fun m => m.1 == "sections" with
    | [m] => (Json.list? Block.ofJson? m.2).map Page.mk
    | _ => none
  | _ => none

/-- The page that bytes hold. The shape is looked at before what follows the document. -/
def ofBytes (bs : List UInt8) : Except Fault Page :=
  match Json.readPart .all bs with
  | .error stop => .error (.text (.ofStop bs stop))
  | .ok (j, r) =>
    match ofJson? j with
    | none => .error .shape
    | some p =>
      match Json.readEnd r with
      | .error stop => .error (.text (.ofStop bs stop))
      | .ok () => .ok p

def ofText (text : String) : Except Fault Page := ofBytes (Utf8.ofString text)

end Page

def engineVersion : String := "1.0.0"

/-- The hash of the version, a colon and the canonical text of the page. -/
def Page.hash (p : Page) (version : String) : String :=
  Sha256.hex (Utf8.ofString (version ++ ":" ++ p.toJson.canonical))

end Storefront
