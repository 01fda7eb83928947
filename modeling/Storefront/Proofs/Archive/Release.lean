import Storefront.Proofs.Archive.Deflate
import Storefront.Proofs.Archive.Layout
/-!
When bytes are released. Every file but the last is a piece of its own, which goes to the sink when the
next file begins, and the last one goes with the directory. A piece that is refused is the last one.
-/

namespace Storefront.Archive
variable {σ : Type}

/-! Sinks that take or refuse pieces -/

variable (deflate : List UInt8 → List UInt8)

end Storefront.Archive
