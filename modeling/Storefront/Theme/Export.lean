import Storefront.Delivery.Stream
/-! Exports of pages: the archive of the compiled theme as a whole, or as a stream. -/

namespace Storefront.Theme

inductive Failure where
  | rejected (reason : Rejection)
  | packing (fault : Archive.PackFault)
  deriving DecidableEq, Repr

namespace Failure

def kind : Failure → String
  | .rejected reason => reason.kind
  | .packing _ => "package"

def message : Failure → String
  | .rejected reason => reason.message
  | .packing fault => "Packaging error: " ++ fault.message

end Failure

def archiveOf (deflate : List UInt8 → List UInt8) (c : Catalog) (about : About) (stamp : Stamp) (p : Page) :
    Except Failure (Receipt × List UInt8) :=
  match ofPage c about stamp p with
  | .error reason => .error (.rejected reason)
  | .ok t =>
    match t.archive deflate with
    | .error fault => .error (.packing fault)
    | .ok archive => .ok (t.receipt, archive)

/-- The receipt of a page's theme with the stream of its archive, of which nothing was sent yet. -/
def streamOf (deflate : List UInt8 → List UInt8) (c : Catalog) (cfg : Config) (stamp : Stamp) (p : Page) :
    Except Failure (Receipt × Delivery) :=
  match ofPage c cfg.about stamp p with
  | .error reason => .error (.rejected reason)
  | .ok t => .ok (t.receipt, .ofBundle deflate t.bundle cfg.chunking)

end Storefront.Theme
