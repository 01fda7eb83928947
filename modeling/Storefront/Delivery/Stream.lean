import Storefront.Delivery.Worker
import Storefront.Theme.Compile
/-!
The stream of an archive: a worker puts chunks into a queue of bounded length while a consumer takes
them, whole or in parts. The consumer may cancel the work and go away at any time. Both sides move in
steps, and a step that has to wait for the other side gives `none`. What ends a packing that fails goes
through the queue as well, and the consumer is told instead of getting bytes.
-/

namespace Storefront

structure Delivery where
  unsent : List Delivery.Chunk
  final : Delivery.Outcome
  /-- Has the worker found that it may send the next chunk? -/
  sending : Bool
  queue : List Delivery.Chunk
  capacity : Nat
  accepted : Nat
  /-- The chunk that reads take their bytes from, from `offset` on. -/
  pending : List UInt8
  offset : Nat
  cancelled : Bool
  closed : Bool
  outcome : Option Delivery.Outcome
  deriving Repr

namespace Delivery

def ofBundle (deflate : List UInt8 → List UInt8) (b : Bundle) (c : Chunking) : Delivery :=
  let (unsent, final) := Worker.chunks deflate b c.size
  { unsent, final, sending := false, queue := [], capacity := max c.buffered 1, accepted := 0,
    pending := [], offset := 0, cancelled := false, closed := false, outcome := none }

/-- The next step of the worker, which looks whether it may go on before it sends bytes. It has to wait
while the queue is full, and has no step after its end. -/
def work? (s : Delivery) : Option Delivery :=
  match s.outcome, s.unsent with
  | some _, _ => none
  | none, [] => some { s with outcome := some s.final }
  | none, .error message :: unsent =>
    if s.closed then some { s with unsent }
    else if s.queue.length < s.capacity then some { s with unsent, queue := s.queue ++ [.error message] }
    else none
  | none, .ok chunk :: unsent =>
    if !s.sending then
      if s.cancelled then some { s with outcome := some (.aborted s.accepted) }
      else some { s with sending := true }
    else if s.closed then some { s with outcome := some (.aborted s.accepted) }
    else if s.queue.length < s.capacity then
      some { s with unsent, sending := false, queue := s.queue ++ [.ok chunk],
                    accepted := s.accepted + chunk.length }
    else none

def workFor : (n : Nat) → Delivery → Delivery
  | 0, s => s
  | n + 1, s =>
    match s.work? with
    | some s => workFor n s
    | none => s

def receive? (s : Delivery) : Option (Option Chunk × Delivery) :=
  match s.queue with
  | chunk :: queue => some (some chunk, { s with queue })
  | [] => if s.closed || s.outcome.isSome then some (none, s) else none

def next? (s : Delivery) : Option (Option Chunk × Delivery) :=
  if s.offset < s.pending.length then
    some (some (.ok (s.pending.drop s.offset)), { s with pending := [], offset := 0 })
  else s.receive?

/-- Takes chunks from the queue until there is one with bytes to read, and tells whether there is one
or the stream is at its end. A failure in the queue is told instead. -/
def refill? (s : Delivery) (pending : List UInt8) (offset : Nat) (queue : List Chunk) :
    Option (Except String Bool × Delivery) :=
  if offset < pending.length then some (.ok true, { s with pending, offset, queue })
  else match queue with
    | .ok chunk :: queue => refill? s chunk 0 queue
    | .error message :: queue => some (.error message, { s with pending, offset, queue })
    | [] =>
      if s.closed || s.outcome.isSome then some (.ok false, { s with pending, offset, queue := [] })
      else none

def read? (s : Delivery) (n : Nat) : Option (Except String (List UInt8) × Delivery) :=
  if n = 0 then some (.ok [], s)
  else (s.refill? s.pending s.offset s.queue).map fun
    | (.error message, s) => (.error message, s)
    | (.ok false, s) => (.ok [], s)
    | (.ok true, s) =>
      let available := s.pending.drop s.offset
      let count := min available.length n
      (.ok (available.take count), { s with offset := s.offset + count })

def cancel (s : Delivery) : Delivery := { s with cancelled := true }

def close (s : Delivery) : Delivery := { s with closed := true, queue := [], pending := [], offset := 0 }

/-- The stream once the consumer need not wait: two steps of the worker fill an empty queue or end
the work. -/
def ready (s : Delivery) : Delivery := if s.next?.isSome then s else s.workFor 2

def next (s : Delivery) : Option Chunk × Delivery := s.ready.next?.getD (none, s.ready)

def read (s : Delivery) (n : Nat) : Except String (List UInt8) × Delivery :=
  (s.read? n).getD ((s.ready.read? n).getD (.ok [], s.ready))

def collectUpTo (s : Delivery) : (fuel : Nat) → Except String (List (List UInt8)) × Delivery
  | 0 => (.ok [], s)
  | fuel + 1 =>
    match s.next with
    | (none, s) => (.ok [], s)
    | (some (.error message), s) => (.error message, s)
    | (some (.ok chunk), s) =>
      let (chunks, s) := collectUpTo s fuel
      (chunks.map (chunk :: ·), s)

def collect (s : Delivery) : Except String (List (List UInt8)) × Delivery :=
  s.collectUpTo (s.unsent.length + s.queue.length + 2)

def abort (s : Delivery) : Outcome := ((s.cancel.close.workFor 2).outcome).getD (.aborted s.accepted)

end Delivery

end Storefront
