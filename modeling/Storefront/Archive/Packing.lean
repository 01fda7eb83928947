import Storefront.Archive.Bundle
import Storefront.Archive.Window
import Storefront.Text.Utf8
/-!
Archives of bundles. A header is written before its content and gets check sum and sizes when the next
entry begins; what lies before the new header is final then and goes to a sink. How contents are deflated
is left open up to the end.
-/

namespace Storefront.Archive

structure Packer where
  window : Window
  records : List Record
  /-- The entry whose header still lacks its sums. -/
  current : Option Record
  deriving DecidableEq, Repr

namespace Packer

def start : Packer := ⟨.empty, [], none⟩

/-- Completes the header of the last entry. -/
def close (p : Packer) : Except Window.Fault Packer :=
  match p.current with
  | none => .ok p
  | some r => do
    let place := p.window.pos
    let w ← p.window.seek (.start (r.offset + sumsOffset))
    let w ← w.write (sums r.crc r.packedSize r.size)
    let w ← w.seek (.start place)
    return ⟨w, p.records ++ [r], none⟩

def enter (p : Packer) (name : List UInt8) : Except Window.Fault Packer := do
  let p ← p.close
  let w ← p.window.write (localHeader name 0 0 0)
  return ⟨w, p.records, some ⟨name, 0, 0, 0, p.window.pos⟩⟩

def fill (deflate : List UInt8 → List UInt8) (p : Packer) (content : List UInt8) :
    Except Window.Fault Packer := do
  let packed := deflate content
  let w ← p.window.write packed
  return ⟨w, p.records, p.current.map fun r =>
    { r with crc := Crc32.sum content, packedSize := packed.length, size := content.length }⟩

/-- Takes what lies before the header of the entry `name`, which has just begun; `before` is where the
file ended then. -/
def release (p : Packer) (name : List UInt8) (before : Nat) : List UInt8 × Packer :=
  let (ready, w) := p.window.takeUntil ((p.window.localHeaderStart name).getD before)
  (ready, { p with window := w })

def finish (p : Packer) : Except Window.Fault (List UInt8) := do
  let p ← p.close
  let w ← p.window.write (p.records.flatMap Record.header ++ endRecord p.records p.window.pos)
  return w.takeAll.1

end Packer

inductive PackFault where
  /-- A header or the directory could not be written. -/
  | zip (fault : Window.Fault)
  | io (fault : Window.Fault)
  | aborted
  deriving DecidableEq, Repr

def PackFault.message : PackFault → String
  | .zip fault => "Archive error: i/o error: " ++ fault.message
  | .io fault => "IO error: " ++ fault.message
  | .aborted => "Archive consumer went away"

/-- One who takes the bytes of an archive piece by piece, and may refuse a piece. -/
abbrev Sink (σ : Type) := σ → List UInt8 → σ × Except PackFault Unit

def give {σ : Type} (sink : Sink σ) (s : σ) (piece : List UInt8) : σ × Except PackFault Unit :=
  if piece = [] then (s, .ok ()) else sink s piece

def packFiles {σ : Type} (deflate : List UInt8 → List UInt8) (sink : Sink σ) (p : Packer) (count : Nat)
    (s : σ) : Entries (List UInt8) → σ × Except PackFault Nat
  | [] =>
    match p.finish with
    | .error fault => (s, .error (.zip fault))
    | .ok rest =>
      match give sink s rest with
      | (s, .error fault) => (s, .error fault)
      | (s, .ok ()) => (s, .ok (count + rest.length))
  | (path, content) :: files =>
    let name := Utf8.ofString path
    match p.enter name with
    | .error fault => (s, .error (.zip fault))
    | .ok entered =>
      let (ready, entered) := entered.release name p.window.size
      match give sink s ready with
      | (s, .error fault) => (s, .error fault)
      | (s, .ok ()) =>
        match entered.fill deflate content with
        | .error fault => (s, .error (.io fault))
        | .ok p => packFiles deflate sink p (count + ready.length) s files

def packInto {σ : Type} (deflate : List UInt8 → List UInt8) (b : Bundle) (sink : Sink σ) (s : σ) :
    σ × Except PackFault Nat :=
  packFiles deflate sink .start 0 s b.files

def keep : Sink (List (List UInt8)) := fun pieces piece => (piece :: pieces, .ok ())

def pieces (deflate : List UInt8 → List UInt8) (b : Bundle) : Except PackFault (List (List UInt8)) :=
  match packInto deflate b keep [] with
  | (ps, .ok _) => .ok ps.reverse
  | (_, .error fault) => .error fault

def pack (deflate : List UInt8 → List UInt8) (b : Bundle) : Except PackFault (List UInt8) :=
  (pieces deflate b).map List.flatten

end Storefront.Archive
