import Storefront.Archive.Packing
/-!
The worker that packs a bundle and sends the archive in chunks of one size; only the last chunk may be
shorter. A chunk that is refused ends the work. Where packing fails, the cause is sent in place of a chunk.
-/

namespace Storefront.Delivery

inductive Outcome where
  | completed (bytes : Nat)
  /-- With the bytes that were sent before. -/
  | aborted (sent : Nat)
  | failed (message : String)
  deriving DecidableEq, Repr

/-- What is sent: bytes of the archive, or why there are no more. -/
abbrev Chunk := Except String (List UInt8)

def split (size : Nat) : (n : Nat) → List UInt8 → List (List UInt8) × List UInt8
  | 0, bs => ([], bs)
  | n + 1, bs =>
    let (chunks, rest) := split size n (bs.drop size)
    (bs.take size :: chunks, rest)

structure Worker (τ : Type) where
  carry : List UInt8
  sent : Nat
  target : τ

namespace Worker
variable {τ : Type}

def sendAll (send : τ → Chunk → Option τ) (w : Worker τ) :
    List (List UInt8) → Worker τ × Except Archive.PackFault Unit
  | [] => (w, .ok ())
  | chunk :: chunks =>
    match send w.target (.ok chunk) with
    | some target => sendAll send { w with sent := w.sent + chunk.length, target } chunks
    | none => (w, .error .aborted)

def sink (size : Nat) (send : τ → Chunk → Option τ) : Archive.Sink (Worker τ) := fun w piece =>
  let bs := w.carry ++ piece
  let (chunks, rest) := split size (bs.length / size) bs
  sendAll send { w with carry := rest } chunks

/-- How the work ends once packing has ended, in success or for a fault. -/
def conclude (send : τ → Chunk → Option τ) : Worker τ × Except Archive.PackFault Nat → τ × Outcome
  | (w, .error .aborted) => (w.target, .aborted w.sent)
  | (w, .error fault) => ((send w.target (.error fault.message)).getD w.target, .failed fault.message)
  | (w, .ok bytes) =>
    match Archive.give (fun w piece => sendAll send { w with carry := [] } [piece]) w w.carry with
    | (w, .ok ()) => (w.target, .completed bytes)
    | (w, .error _) => (w.target, .aborted w.sent)

def run (deflate : List UInt8 → List UInt8) (b : Bundle) (size : Nat) (send : τ → Chunk → Option τ)
    (target : τ) : τ × Outcome :=
  conclude send (Archive.packInto deflate b (sink (max size 1) send) ⟨[], 0, target⟩)

/-- All that is sent for a bundle, and how the work ends, if nothing is refused. -/
def chunks (deflate : List UInt8 → List UInt8) (b : Bundle) (size : Nat) : List Chunk × Outcome :=
  let (sent, outcome) := run deflate b size (fun sent chunk => some (chunk :: sent)) []
  (sent.reverse, outcome)

end Worker

end Storefront.Delivery
