import Mathlib.Data.List.Infix
import Storefront.Proofs.Delivery.Stream
import Storefront.Proofs.Delivery.Worker
/-!
The account of a stream: which chunks its queue accepted, which of them the consumer received, and which
bytes the consumer was given. The worker checks, sends and counts in separate steps; the consumer calls,
cancels and goes away when it likes.
-/

namespace Storefront.Delivery

def bytesOf (items : List Chunk) : List UInt8 := items.flatMap fun item => item.toOption.getD []

@[simp] theorem bytesOf_append (l m : List Chunk) : bytesOf (l ++ m) = bytesOf l ++ bytesOf m :=
  List.flatMap_append

@[simp] theorem bytesOf_map_ok (chunks : List (List UInt8)) : bytesOf (chunks.map .ok) = chunks.flatten := by
  induction chunks with
  | nil => rfl
  | cons chunk chunks ih => exact congrArg (chunk ++ ·) ih

@[simp] theorem bytesOf_singleton (chunk : List UInt8) : bytesOf [.ok chunk] = chunk :=
  List.append_nil chunk

theorem length_bytesOf_le_of_prefix {l m : List Chunk} (h : l <+: m) :
    (bytesOf l).length ≤ (bytesOf m).length := by
  obtain ⟨rest, rfl⟩ := h
  rw [bytesOf_append, List.length_append]
  exact Nat.le_add_right _ _

theorem bytesOf_cons (item : Chunk) (items : List Chunk) :
    bytesOf (item :: items) = item.toOption.getD [] ++ bytesOf items := rfl

variable {s s' : Delivery} {e : Event}

theorem refill?_front {pending : List UInt8} {offset : Nat} {queue : List Chunk} {found : Except String Bool}
    (h : s.refill? pending offset queue = some (found, s')) :
    ∃ front pending' offset' queue',
      s' = { s with pending := pending', offset := offset', queue := queue' } ∧
        queue = front ++ queue' ∧ pending'.drop offset' = pending.drop offset ++ bytesOf front := by
  induction queue generalizing pending offset with
  | nil =>
    refine ⟨[], pending, offset, [], ?_, rfl, (List.append_nil _).symm⟩
    by_cases hlt : offset < pending.length
    · simp only [refill?_of_lt _ hlt, Option.some.injEq, Prod.mk.injEq] at h
      exact h.2.symm
    · by_cases hend : (s.closed || s.outcome.isSome) = true
      · simp only [refill?, hlt, if_false, hend, if_true, Option.some.injEq, Prod.mk.injEq] at h
        exact h.2.symm
      · simp [refill?, hlt, hend] at h
  | cons item queue ih =>
    by_cases hlt : offset < pending.length
    · simp only [refill?_of_lt _ hlt, Option.some.injEq, Prod.mk.injEq] at h
      exact ⟨[], pending, offset, item :: queue, h.2.symm, rfl, (List.append_nil _).symm⟩
    · cases item with
      | ok chunk =>
        simp only [refill?, hlt, if_false] at h
        obtain ⟨front, pending', offset', queue', hs', hqueue, hdrop⟩ := ih h
        refine ⟨.ok chunk :: front, pending', offset', queue', hs', by rw [hqueue]; rfl, ?_⟩
        rw [hdrop, List.drop_zero, List.drop_eq_nil_of_le (Nat.le_of_not_lt hlt)]
        rfl
      | error message =>
        simp only [refill?, hlt, if_false, Option.some.injEq, Prod.mk.injEq] at h
        exact ⟨[.error message], pending, offset, queue, h.2.symm, rfl, (List.append_nil _).symm⟩

theorem Step.front (h : Step s e s') (he : e ≠ .work) :
    ∃ front pending offset queue, s' = { s with pending, offset, queue } ∧ s.queue = front ++ queue ∧
      e.bytes ++ pending.drop offset = s.pending.drop s.offset ++ bytesOf front := by
  cases h with
  | work h => exact absurd rfl he
  | next h =>
    obtain ⟨_, rfl, hs'⟩ | ⟨hle, item, queue, hqueue, rfl, hs'⟩ | ⟨_, rfl, hs'⟩ := next?_cases h
    · exact ⟨[], [], 0, s.queue, hs', rfl, rfl⟩
    · refine ⟨[item], s.pending, s.offset, queue, hs', hqueue, ?_⟩
      rw [List.drop_eq_nil_of_le hle]
      cases item <;> simp [Event.bytes, bytesOf, Except.toOption]
    · exact ⟨[], s.pending, s.offset, s.queue, hs', rfl, (List.append_nil _).symm⟩
  | read h =>
    obtain ⟨_, rfl, hs'⟩ | ⟨_, found, t, ht, hcases⟩ := read?_cases h
    · exact ⟨[], s.pending, s.offset, s.queue, hs', rfl, (List.append_nil _).symm⟩
    · obtain ⟨front, pending, offset, queue, rfl, hqueue, hdrop⟩ := refill?_front ht
      obtain ⟨_, rfl, rfl⟩ | ⟨_, bytes, rfl, hbytes, rfl⟩ | ⟨message, _, _, rfl, rfl⟩ := hcases
      · exact ⟨front, pending, offset, queue, rfl, hqueue, hdrop⟩
      · refine ⟨front, pending, offset + bytes.length, queue, rfl, hqueue, ?_⟩
        rw [← hdrop, ← List.drop_drop]
        exact List.prefix_iff_eq_append.mp (hbytes ▸ List.take_prefix _ _)
      · exact ⟨front, pending, offset, queue, rfl, hqueue, hdrop⟩

/-- A stream with what has passed through its queue so far. -/
structure Account where
  stream : Delivery
  /-- The bytes that the worker has counted, which it does only after a send. -/
  counted : Nat
  sent : List Chunk
  received : List Chunk
  taken : List UInt8

namespace Account

inductive Act where
  | work
  | call
  | cancel
  | close
  deriving DecidableEq

def start (deflate : List UInt8 → List UInt8) (b : Bundle) (c : Chunking) : Account :=
  ⟨.ofBundle deflate b c, 0, [], [], []⟩

/-- One step of either side. A worker that has sent a chunk counts it before it does anything else. -/
inductive Step : Account → Act → Account → Prop
  | work {a : Account} {s : Delivery} (hcounted : a.counted = a.stream.accepted)
    (h : a.stream.work? = some s) :
    Step a .work { a with stream := s, sent := a.sent ++ s.queue.drop a.stream.queue.length }
  | count {a : Account} (h : a.counted ≠ a.stream.accepted) :
    Step a .work { a with counted := a.stream.accepted }
  | call {a : Account} {s : Delivery} {e : Event} (h : Delivery.Step a.stream e s) (he : e ≠ .work) :
    Step a .call { a with
      stream := s
      received := a.received ++ a.stream.queue.take (a.stream.queue.length - s.queue.length)
      taken := a.taken ++ e.bytes }
  | cancel (a : Account) : Step a .cancel { a with stream := a.stream.cancel }
  | close (a : Account) : Step a .close { a with stream := a.stream.close }

inductive Run : Account → List Act → Account → Prop
  | nil (a : Account) : Run a [] a
  | cons {a m a' : Account} {act : Act} {acts : List Act} (hstep : Step a act m) (hrun : Run m acts a') :
    Run a (act :: acts) a'

/-- The consumer ends the stream: it cancels, goes away and waits for the worker to end. The worker may
take its steps before, between and after the two. -/
def Aborts (a : Account) (r : Outcome) (a' : Account) : Prop :=
  ∃ acts, Run a acts a' ∧ acts.filter (· ≠ .work) = [.cancel, .close] ∧ a'.stream.outcome = some r

variable {deflate : List UInt8 → List UInt8} {b : Bundle} {c : Chunking} {archive : List UInt8}
  {a a' m : Account} {act : Act} {acts before after : List Act}

theorem Run.append (hbefore : Run a before m) (hafter : Run m after a') : Run a (before ++ after) a' := by
  induction hbefore with
  | nil a => exact hafter
  | cons hstep hrun ih => exact .cons hstep (ih hafter)

/-! What the account of a stream holds to -/

/-- The worker has counted all that it sent, but for the last chunk as long as it has not ended. -/
def Counts (a : Account) : Prop :=
  a.counted = (bytesOf a.sent).length ∨
    (a.stream.outcome = none ∧
      ∃ before chunk, a.sent = before ++ [.ok chunk] ∧ a.counted = (bytesOf before).length)

/-- The account of the stream of `archive` is balanced: nothing is lost and nothing is made up, until the
consumer goes away and gives up what it has not yet taken. -/
structure Balanced (archive : List UInt8) (c : Chunking) (a : Account) : Prop where
  whole : a.sent ++ a.stream.unsent = (cut (max c.size 1) archive).map .ok
  accepted : a.stream.accepted = (bytesOf a.sent).length
  counted : Counts a
  opened : a.stream.closed = false →
    a.received ++ a.stream.queue = a.sent ∧
      a.taken ++ a.stream.pending.drop a.stream.offset = bytesOf a.received
  shut : a.stream.closed = true →
    a.stream.queue = [] ∧ a.stream.pending.drop a.stream.offset = [] ∧
      a.received <+: a.sent ∧ a.taken <+: bytesOf a.received
  room : a.stream.queue.length ≤ a.stream.capacity
  capacity : a.stream.capacity = max c.buffered 1
  final : a.stream.final = .completed archive.length
  outcome : ∀ r, a.stream.outcome = some r →
    (r = .completed archive.length ∧ a.stream.unsent = []) ∨
      (r = .aborted a.stream.accepted ∧ a.stream.unsent ≠ [])

theorem balanced_start (h : Archive.pack deflate b = .ok archive) (c : Chunking) :
    Balanced archive c (start deflate b c) := by
  rw [start, ofBundle_eq h c]
  refine ⟨by simp, rfl, .inl rfl, fun _ => ⟨rfl, rfl⟩, ?_, Nat.zero_le _, rfl, rfl, ?_⟩
  · intro hclosed
    cases hclosed
  · intro r hr
    cases hr

namespace Balanced

theorem prefixes (h : Balanced archive c a) : a.received <+: a.sent ∧ a.taken <+: bytesOf a.received := by
  cases hclosed : a.stream.closed with
  | false =>
    obtain ⟨hreceived, htaken⟩ := h.opened hclosed
    exact ⟨⟨_, hreceived⟩, ⟨_, htaken⟩⟩
  | true => exact (h.shut hclosed).2.2

theorem exists_of_unsent (h : Balanced archive c a) (item : Chunk) (hitem : item ∈ a.stream.unsent) :
    ∃ chunk ∈ cut (max c.size 1) archive, item = .ok chunk := by
  have hmem : item ∈ (cut (max c.size 1) archive).map .ok := by
    rw [← h.whole]
    exact List.mem_append_right _ hitem
  obtain ⟨chunk, hchunk, rfl⟩ := List.mem_map.mp hmem
  exact ⟨chunk, hchunk, rfl⟩

theorem work_cases {s : Delivery} (h : Balanced archive c a) (hs : a.stream.work? = some s) :
    a.stream.outcome = none ∧
      ((a.stream.unsent = [] ∧ s = { a.stream with outcome := some a.stream.final }) ∨
        (a.stream.unsent ≠ [] ∧ (a.stream.sending = false ∨ a.stream.closed = true) ∧
          s = { a.stream with outcome := some (.aborted a.stream.accepted) }) ∨
        (a.stream.sending = false ∧ s = { a.stream with sending := true }) ∨
        ∃ chunk unsent, a.stream.unsent = .ok chunk :: unsent ∧ a.stream.closed = false ∧
          a.stream.queue.length < a.stream.capacity ∧
          s = { a.stream with unsent, sending := false, queue := a.stream.queue ++ [.ok chunk],
                              accepted := a.stream.accepted + chunk.length }) := by
  obtain ⟨hnone, hcases⟩ := work?_cases hs
  refine ⟨hnone, ?_⟩
  obtain hend | ⟨message, unsent, hu, -⟩ | ⟨chunk, unsent, hu, hcases⟩ := hcases
  · exact .inl hend
  · obtain ⟨chunk, -, hchunk⟩ := h.exists_of_unsent (.error message) (by simp [hu])
    cases hchunk
  · have hne : a.stream.unsent ≠ [] := by simp [hu]
    obtain ⟨hsending, _, rfl⟩ | ⟨hsending, _, rfl⟩ | ⟨_, hclosed, rfl⟩ | ⟨_, hclosed, hroom, rfl⟩ := hcases
    · exact .inr (.inl ⟨hne, .inl hsending, rfl⟩)
    · exact .inr (.inr (.inl ⟨hsending, rfl⟩))
    · exact .inr (.inl ⟨hne, .inr hclosed, rfl⟩)
    · exact .inr (.inr (.inr ⟨chunk, unsent, hu, hclosed, hroom, rfl⟩))

theorem settle (h : Balanced archive c a) (hcount : a.counted = (bytesOf a.sent).length) {r : Outcome}
    (hr : (r = .completed archive.length ∧ a.stream.unsent = []) ∨
      (r = .aborted a.stream.accepted ∧ a.stream.unsent ≠ [])) :
    Balanced archive c { a with stream := { a.stream with outcome := some r } } := by
  refine { h with counted := .inl hcount, outcome := ?_ }
  intro r' hr'
  cases hr'
  exact hr

theorem work {s : Delivery} (h : Balanced archive c a) (hcounted : a.counted = a.stream.accepted)
    (hs : a.stream.work? = some s) :
    Balanced archive c
      { a with stream := s, sent := a.sent ++ s.queue.drop a.stream.queue.length } := by
  have hsame : a.sent ++ a.stream.queue.drop a.stream.queue.length = a.sent := by simp
  have hcount := hcounted.trans h.accepted
  obtain ⟨hnone, ⟨hu, rfl⟩ | ⟨hu, _, rfl⟩ | ⟨_, rfl⟩ | ⟨chunk, unsent, hu, hclosed, hroom, rfl⟩⟩ :=
    h.work_cases hs
  · simp only [hsame]
    exact h.settle hcount (.inl ⟨h.final, hu⟩)
  · simp only [hsame]
    exact h.settle hcount (.inr ⟨rfl, hu⟩)
  · simp only [hsame]
    exact { h with }
  · -- the chunk goes to the end of the queue and to the end of what was sent
    have hpushed : a.sent ++ (a.stream.queue ++ [Except.ok chunk]).drop a.stream.queue.length =
        a.sent ++ [.ok chunk] := by
      simp
    simp only [hpushed]
    obtain ⟨hreceived, htaken⟩ := h.opened hclosed
    refine ⟨?_, ?_, .inr ⟨hnone, _, _, rfl, hcount⟩, fun _ => ⟨?_, htaken⟩, ?_, ?_, h.capacity, h.final, ?_⟩
    · have hwhole := h.whole
      rw [hu] at hwhole
      simpa using hwhole
    · simp [h.accepted]
    · rw [← hreceived, List.append_assoc]
    · intro hshut
      simp [hclosed] at hshut
    · simpa [Nat.succ_le_iff] using hroom
    · intro r hr
      simp [hnone] at hr

theorem call {s : Delivery} {e : Event} (h : Balanced archive c a) (hs : Delivery.Step a.stream e s)
    (he : e ≠ .work) :
    Balanced archive c { a with
      stream := s
      received := a.received ++ a.stream.queue.take (a.stream.queue.length - s.queue.length)
      taken := a.taken ++ e.bytes } := by
  obtain ⟨front, pending, offset, queue, rfl, hqueue, hbytes⟩ := hs.front he
  have hfront : a.stream.queue.take (a.stream.queue.length - queue.length) = front := by simp [hqueue]
  simp only [hfront]
  refine { h with opened := ?_, shut := ?_, room := ?_ }
  · intro hclosed
    obtain ⟨hreceived, htaken⟩ := h.opened hclosed
    refine ⟨?_, ?_⟩
    · rw [List.append_assoc, ← hqueue]
      exact hreceived
    · rw [List.append_assoc, hbytes, ← List.append_assoc, htaken, bytesOf_append]
  · intro hclosed
    -- a consumer that has gone away gets nothing
    obtain ⟨hempty, hread, hprefixes⟩ := h.shut hclosed
    obtain ⟨rfl, rfl⟩ : front = [] ∧ queue = [] := List.append_eq_nil_iff.mp (hqueue.symm.trans hempty)
    rw [hread] at hbytes
    obtain ⟨hnone, hdrop⟩ := List.append_eq_nil_iff.mp hbytes
    rw [hnone, List.append_nil, List.append_nil]
    exact ⟨rfl, hdrop, hprefixes⟩
  · have hroom := h.room
    rw [hqueue, List.length_append] at hroom
    exact Nat.le_trans (Nat.le_add_left _ _) hroom

theorem close (h : Balanced archive c a) : Balanced archive c { a with stream := a.stream.close } := by
  refine { h with opened := ?_, shut := fun _ => ⟨rfl, rfl, h.prefixes⟩, room := Nat.zero_le _ }
  intro hclosed
  cases hclosed

theorem step (h : Balanced archive c a) (hs : Step a act a') : Balanced archive c a' := by
  cases hs with
  | work hcounted hs => exact h.work hcounted hs
  | count _ => exact { h with counted := .inl h.accepted }
  | call hs he => exact h.call hs he
  | cancel => exact { h with }
  | close => exact h.close

theorem run (h : Balanced archive c a) (hrun : Run a acts a') : Balanced archive c a' := by
  induction hrun with
  | nil a => exact h
  | cons hstep hrun ih => exact ih (h.step hstep)

end Balanced

/-! The end of the work -/

theorem work?_isSome_or_full (h : s.outcome = none) :
    s.work?.isSome = true ∨ (s.closed = false ∧ s.capacity ≤ s.queue.length) := by
  have hroom : s.queue.length < s.capacity ∨ s.capacity ≤ s.queue.length := Nat.lt_or_ge _ _
  match hu : s.unsent with
  | [] => simp [work?, h, hu]
  | .error message :: unsent =>
    cases hclosed : s.closed with
    | true => simp [work?, h, hu, hclosed]
    | false => simpa [work?, h, hu, hclosed] using hroom
  | .ok chunk :: unsent =>
    cases hsending : s.sending with
    | false => cases hcancelled : s.cancelled <;> simp [work?, h, hu, hsending, hcancelled]
    | true =>
      cases hclosed : s.closed with
      | true => simp [work?, h, hu, hsending, hclosed]
      | false => simpa [work?, h, hu, hsending, hclosed] using hroom

theorem work?_of_cancel_close (h : Balanced archive c a) (ho : a.stream.outcome = none) :
    ∃ t r, a.stream.cancel.close.work? = some t ∧ t.outcome = some r := by
  match hu : a.stream.unsent with
  | [] => simp [work?, cancel, close, ho, hu]
  | .error message :: unsent =>
    obtain ⟨chunk, -, hchunk⟩ := h.exists_of_unsent (.error message) (by simp [hu])
    cases hchunk
  | .ok chunk :: unsent => cases hsending : a.stream.sending <;> simp [work?, cancel, close, ho, hu, hsending]

theorem Step.work_or_full (h : a.stream.outcome = none) :
    (∃ a', Step a .work a') ∨ (a.stream.closed = false ∧ a.stream.capacity ≤ a.stream.queue.length) := by
  by_cases hcounted : a.counted = a.stream.accepted
  · refine (work?_isSome_or_full h).imp_left fun hwork => ?_
    obtain ⟨t, ht⟩ := Option.isSome_iff_exists.mp hwork
    exact ⟨_, .work hcounted ht⟩
  · exact .inl ⟨_, .count hcounted⟩

def stepsLeft (a : Account) : Nat :=
  (if a.counted = a.stream.accepted then 0 else 1) +
    match a.stream.outcome with
    | some _ => 0
    | none => if a.stream.sending then 1 else 2

theorem stepsLeft_le (a : Account) : a.stepsLeft ≤ 3 := by
  have hcount : (if a.counted = a.stream.accepted then 0 else 1) ≤ 1 := by split <;> omega
  have hend : (match a.stream.outcome with
      | some _ => 0
      | none => if a.stream.sending then 1 else 2) ≤ 2 := by
    cases a.stream.outcome with
    | some r => exact Nat.zero_le _
    | none => cases a.stream.sending <;> simp
  exact Nat.add_le_add hcount hend

theorem Balanced.step_closed (h : Balanced archive c a) (hs : Step a act a')
    (hclosed : a.stream.closed = true) :
    a'.stream.closed = true ∧ a'.sent = a.sent ∧ a'.stepsLeft + [act].count .work ≤ a.stepsLeft := by
  cases hs with
  | work hcounted hs =>
    obtain ⟨hnone, ⟨_, rfl⟩ | ⟨_, _, rfl⟩ | ⟨hsending, rfl⟩ | ⟨_, _, _, hopen, _⟩⟩ := h.work_cases hs
    · refine ⟨hclosed, by simp, ?_⟩
      cases hsending : a.stream.sending <;> simp [stepsLeft, hcounted, hnone, hsending]
    · refine ⟨hclosed, by simp, ?_⟩
      cases hsending : a.stream.sending <;> simp [stepsLeft, hcounted, hnone, hsending]
    · exact ⟨hclosed, by simp, by simp [stepsLeft, hcounted, hnone, hsending]⟩
    · rw [hclosed] at hopen
      cases hopen
  | count hcounted =>
    refine ⟨hclosed, rfl, ?_⟩
    simp only [stepsLeft, if_neg hcounted, if_true, List.count_singleton_self]
    omega
  | call hs he =>
    obtain ⟨_, _, _, _, rfl, _⟩ := hs.front he
    exact ⟨hclosed, rfl, Nat.le_refl _⟩
  | cancel => exact ⟨hclosed, rfl, Nat.le_refl _⟩
  | close => exact ⟨rfl, rfl, Nat.le_refl _⟩

theorem Balanced.run_closed (h : Balanced archive c a) (hrun : Run a acts a')
    (hclosed : a.stream.closed = true) :
    a'.stream.closed = true ∧ a'.sent = a.sent ∧ a'.stepsLeft + acts.count .work ≤ a.stepsLeft := by
  induction hrun with
  | nil a => exact ⟨hclosed, rfl, Nat.le_refl _⟩
  | @cons a m a' act acts hstep hrun ih =>
    obtain ⟨hm, hsent, hleft⟩ := h.step_closed hstep hclosed
    obtain ⟨ha', hsent', hleft'⟩ := ih (h.step hstep) hm
    refine ⟨ha', hsent'.trans hsent, ?_⟩
    have hcount : (act :: acts).count .work = [act].count .work + acts.count .work := by
      rw [← List.count_append, List.singleton_append]
    omega

theorem Run.taken_prefix (hrun : Run a acts a') : a.taken <+: a'.taken := by
  induction hrun with
  | nil a => exact List.prefix_rfl
  | cons hstep hrun ih =>
    refine List.IsPrefix.trans ?_ ih
    cases hstep with
    | call _ _ => exact List.prefix_append _ _
    | work _ _ => exact List.prefix_rfl
    | count _ => exact List.prefix_rfl
    | cancel => exact List.prefix_rfl
    | close => exact List.prefix_rfl

/-! The account of every stream -/

/-- How the work ends when the queue accepted `sent` of all the chunks of `archive`. -/
def report (archive : List UInt8) (chunks sent : List Chunk) : Outcome :=
  if sent = chunks then .completed archive.length else .aborted (bytesOf sent).length

def accepting (n : Nat) (sent : List Chunk) (chunk : Chunk) : Option (List Chunk) :=
  if sent.length < n then some (sent ++ [chunk]) else none

theorem foldlM_accepting {n : Nat} (sent chunks : List Chunk) (h : sent.length + chunks.length ≤ n) :
    chunks.foldlM (accepting n) sent = some (sent ++ chunks) := by
  induction chunks generalizing sent with
  | nil => simp
  | cons chunk chunks ih =>
    rw [List.length_cons] at h
    have hsend : accepting n sent chunk = some (sent ++ [chunk]) := if_pos (by omega)
    rw [List.foldlM_cons, hsend]
    have hrest := ih (sent ++ [chunk]) (by rw [List.length_append, List.length_singleton]; omega)
    simpa using hrest

theorem length_bytesOf_le {size : Nat} {items : List Chunk}
    (h : ∀ item ∈ items, ∃ chunk, item = .ok chunk ∧ chunk.length ≤ size) :
    (bytesOf items).length ≤ items.length * size := by
  induction items with
  | nil => simp [bytesOf]
  | cons item items ih =>
    obtain ⟨⟨chunk, rfl, hchunk⟩, hitems⟩ := List.forall_mem_cons.mp h
    have hrest := ih hitems
    rw [bytesOf_cons, List.length_append, List.length_cons, Nat.succ_mul]
    simp only [Except.toOption, Option.getD_some]
    omega

theorem length_le_of_mem_cut {size : Nat} (hsize : 0 < size) {bs chunk : List UInt8}
    (h : chunk ∈ cut size bs) : chunk.length ≤ size := by
  obtain ⟨i, hi⟩ := List.mem_iff_getElem?.mp h
  rw [((getElem?_cut_eq_some_iff hsize).mp hi).2]
  exact List.length_take_le _ _

/-- What holds of the account `a` of the stream of `archive`, whatever was done before. -/
structure AddsUp (deflate : List UInt8 → List UInt8) (b : Bundle) (c : Chunking) (archive : List UInt8)
    (a : Account) : Prop where
  taken : a.taken <+: bytesOf a.received
  received : a.received <+: a.sent
  sent : a.sent <+: (Worker.chunks deflate b c.size).1
  counted : Counts a
  bytes : a.taken.length ≤ (bytesOf a.received).length ∧ (bytesOf a.received).length ≤ (bytesOf a.sent).length
  ahead : a.stream.closed = false →
    (bytesOf a.sent).length ≤ (bytesOf a.received).length + max c.buffered 1 * max c.size 1
  waits : a.stream.outcome = none →
    (∃ a', Step a .work a') ∨ (a.stream.closed = false ∧ a.stream.queue.length = max c.buffered 1)
  closed : a.stream.closed = true → ∀ acts a', Run a acts a' →
    a'.sent = a.sent ∧ acts.count .work ≤ 3 ∧ (a'.stream.outcome = none → ∃ m, Step a' .work m)
  ended : ∀ r, a.stream.outcome = some r →
    r = report archive (Worker.chunks deflate b c.size).1 a.sent ∧
      Worker.run deflate b c.size (accepting a.sent.length) [] = (a.sent, r)
  aborts : ∀ r a', Aborts a r a' →
    r = report archive (Worker.chunks deflate b c.size).1 a'.sent ∧ a.taken.length ≤ (bytesOf a'.sent).length
  abort : ∃ a', Aborts a a.stream.abort a'

namespace Balanced

theorem ahead (h : Balanced archive c a) (hclosed : a.stream.closed = false) :
    (bytesOf a.sent).length ≤ (bytesOf a.received).length + max c.buffered 1 * max c.size 1 := by
  have hsent := (h.opened hclosed).1
  have hqueue : (bytesOf a.stream.queue).length ≤ a.stream.queue.length * max c.size 1 := by
    refine length_bytesOf_le fun item hitem => ?_
    have hmem : item ∈ (cut (max c.size 1) archive).map .ok := by
      rw [← h.whole, ← hsent]
      simp [hitem]
    obtain ⟨chunk, hchunk, rfl⟩ := List.mem_map.mp hmem
    exact ⟨chunk, rfl, length_le_of_mem_cut (by omega) hchunk⟩
  have hroom : a.stream.queue.length * max c.size 1 ≤ max c.buffered 1 * max c.size 1 :=
    Nat.mul_le_mul_right _ (h.capacity ▸ h.room)
  rw [← hsent, bytesOf_append, List.length_append]
  omega

theorem report (h : Balanced archive c a) {r : Outcome} (hr : a.stream.outcome = some r) :
    r = report archive ((cut (max c.size 1) archive).map .ok) a.sent := by
  rw [← h.whole, Account.report]
  obtain ⟨rfl, hu⟩ | ⟨rfl, hu⟩ := h.outcome r hr
  · simp [hu]
  · simp [hu, h.accepted]

theorem run_worker (h : Balanced archive c a) (hpack : Archive.pack deflate b = .ok archive) {r : Outcome}
    (hr : a.stream.outcome = some r) :
    Worker.run deflate b c.size (accepting a.sent.length) [] = (a.sent, r) := by
  have hwhole := h.whole
  have haccepted := @foldlM_accepting a.sent.length [] a.sent (by simp)
  obtain ⟨rfl, hu⟩ | ⟨rfl, hu⟩ := h.outcome r hr
  · rw [hu, List.append_nil] at hwhole
    rw [hwhole] at haccepted ⊢
    exact Worker.run_of_accepted hpack c.size haccepted
  · -- what was sent is the front of the chunks, and the next one is refused
    obtain ⟨front, back, hcut, hfront, hback⟩ := List.map_eq_append_iff.mp hwhole.symm
    obtain ⟨chunk, rest, rfl⟩ := List.exists_cons_of_ne_nil (l := back) (by rintro rfl; exact hu hback.symm)
    rw [h.accepted, ← hfront, bytesOf_map_ok]
    rw [← hfront] at haccepted
    exact Worker.run_of_refused hpack c.size hcut haccepted (if_neg (Nat.lt_irrefl _))

end Balanced

theorem aborts_abort (h : Balanced archive c a) : ∃ a', Aborts a a.stream.abort a' := by
  -- first the worker counts what it has sent
  obtain ⟨acts, m, hcount, hfilter, hcounted, hstream⟩ : ∃ acts m, Run a acts m ∧
      acts.filter (· ≠ .work) = [] ∧ m.counted = m.stream.accepted ∧ m.stream = a.stream := by
    by_cases hcounted : a.counted = a.stream.accepted
    · exact ⟨[], a, .nil a, rfl, hcounted, rfl⟩
    · exact ⟨[.work], _, .cons (.count hcounted) (.nil _), rfl, rfl, rfl⟩
  have hclose := hcount.append (.cons (.cancel m) (.cons (.close _) (.nil _)))
  rw [← hstream]
  cases ho : m.stream.outcome with
  | some r =>
    refine ⟨_, _, hclose, by rw [List.filter_append, hfilter]; rfl, ?_⟩
    simp [abort, workFor, work?, cancel, close, ho]
  | none =>
    obtain ⟨t, r, ht, hr⟩ := work?_of_cancel_close (h.run hcount) ho
    have hlast : t.work? = none := by simp [work?, hr]
    have hend := hclose.append (.cons (.work hcounted ht) (.nil _))
    refine ⟨_, _, hend, by rw [List.filter_append, List.filter_append, hfilter]; rfl, ?_⟩
    simp [abort, workFor, ht, hlast, hr]

/-- In every state that a stream can reach, its bytes add up: the consumer has taken no more than it
received and received no more than the queue accepted, and what the queue accepted is the front of the
archive's chunks. Once the consumer has gone away the worker sends nothing more and ends after at most
three steps, and an abort reports the whole archive or else the bytes that the queue accepted. -/
theorem account_adds_up (deflate : List UInt8 → List UInt8) (b : Bundle) (c : Chunking)
    {archive : List UInt8} (h : Archive.pack deflate b = .ok archive) :
    (∃ chunks, (Worker.chunks deflate b c.size).1 = chunks.map .ok ∧ IsCut (max c.size 1) archive chunks) ∧
      ∀ acts a, Run (start deflate b c) acts a → AddsUp deflate b c archive a := by
  have hsize : 0 < max c.size 1 := by omega
  have hchunks : (Worker.chunks deflate b c.size).1 = (cut (max c.size 1) archive).map .ok := by
    rw [Worker.chunks_eq_cut h]
  refine ⟨⟨_, hchunks, isCut_cut hsize archive⟩, fun acts a hrun => ?_⟩
  -- `Balanced` carries the books through every step; what is left is to read the account off it.
  have hbalanced := (balanced_start h c).run hrun
  obtain ⟨hreceived, htaken⟩ := hbalanced.prefixes
  refine ⟨htaken, hreceived, ?_, hbalanced.counted, ?_, hbalanced.ahead, ?_, ?_, ?_, ?_,
    aborts_abort hbalanced⟩
  · rw [hchunks, ← hbalanced.whole]
    exact List.prefix_append _ _
  · exact ⟨htaken.length_le, length_bytesOf_le_of_prefix hreceived⟩
  · intro hnone
    have hcapacity := hbalanced.capacity
    have hroom := hbalanced.room
    exact (Step.work_or_full hnone).imp_right fun ⟨hclosed, hfull⟩ => ⟨hclosed, by omega⟩
  · intro hclosed acts' a' hlater
    obtain ⟨hclosed', hsent, hleft⟩ := hbalanced.run_closed hlater hclosed
    have hle := stepsLeft_le a
    refine ⟨hsent, by omega, fun hnone => (Step.work_or_full hnone).resolve_right fun hopen => ?_⟩
    rw [hclosed'] at hopen
    cases hopen.1
  · intro r hr
    rw [hchunks]
    exact ⟨hbalanced.report hr, hbalanced.run_worker h hr⟩
  · intro r a' haborts
    obtain ⟨acts', hlater, _, hr⟩ := haborts
    have hbalanced' := hbalanced.run hlater
    obtain ⟨hreceived', htaken'⟩ := hbalanced'.prefixes
    rw [hchunks]
    refine ⟨hbalanced'.report hr, ?_⟩
    calc a.taken.length ≤ a'.taken.length := hlater.taken_prefix.length_le
      _ ≤ (bytesOf a'.received).length := htaken'.length_le
      _ ≤ (bytesOf a'.sent).length := length_bytesOf_le_of_prefix hreceived'

open Deflate in
theorem account_adds_up_of_one_file : ∃ archive acts a,
    Archive.pack deflateFixed ⟨[("a.txt", [104, 105])]⟩ = .ok archive ∧
    Run (start deflateFixed ⟨[("a.txt", [104, 105])]⟩ ⟨40, 0⟩) acts a ∧
    acts.filter (· ≠ .work) = [.call, .cancel, .close] ∧ a.taken = archive.take 3 ∧
    a.sent = [.ok (archive.take 40), .ok ((archive.drop 40).take 40)] ∧
    a.stream.outcome = some (.aborted 80) ∧
    AddsUp deflateFixed ⟨[("a.txt", [104, 105])]⟩ ⟨40, 0⟩ archive a := by
  obtain ⟨archive, h, hpacked⟩ := Worker.pack_one_file
  obtain ⟨⟨chunks, hchunks, hcut⟩, hruns⟩ := account_adds_up deflateFixed _ ⟨40, 0⟩ h
  obtain ⟨items, final, hitems⟩ : ∃ items final,
    Worker.chunks deflateFixed ⟨[("a.txt", [104, 105])]⟩ 40 = (items, final) := ⟨_, _, rfl⟩
  have hcount := hcut.count
  rw [hpacked] at hcount
  obtain ⟨x, y, z, rfl⟩ := List.length_eq_three.mp hcount
  have hx := hcut.full 0 x rfl (by simp)
  have hy := hcut.full 1 y rfl (by simp)
  rw [hitems] at hchunks
  have hstart : start deflateFixed ⟨[("a.txt", [104, 105])]⟩ ⟨40, 0⟩ =
      ⟨⟨[.ok x, .ok y, .ok z], final, false, [], 1, 0, [], 0, false, false, none⟩, 0, [], [], []⟩ := by
    simp [start, ofBundle, hitems, hchunks]
  have hread : read? ⟨[.ok y, .ok z], final, false, [.ok x], 1, 0 + x.length, [], 0, false, false, none⟩ 3 =
      some (.ok (x.take 3),
        ⟨[.ok y, .ok z], final, false, [], 1, 0 + x.length, x, 3, false, false, none⟩) := by
    simp [read?, refill?, hx]
  -- the worker sends `x`, a read takes three bytes of it, and the cancel comes too late to stop `y`
  have hrun : Run (start deflateFixed ⟨[("a.txt", [104, 105])]⟩ ⟨40, 0⟩)
      [.work, .work, .work, .call, .work, .cancel, .work, .work, .work, .close]
      ⟨⟨[.ok z], final, false, [], 1, 0 + x.length + y.length, [], 0, true, true,
        some (.aborted (0 + x.length + y.length))⟩, 0 + x.length + y.length, [.ok x, .ok y], [.ok x],
        x.take 3⟩ := by
    rw [hstart]
    refine .cons (.work rfl rfl) (.cons (.work rfl rfl) (.cons (.count ?_) ?_))
    · simp [hx]
    refine .cons (.call (.read hread) (by simp)) (.cons (.work rfl rfl) (.cons (.cancel _) ?_))
    refine .cons (.work rfl rfl) (.cons (.count ?_) (.cons (.work rfl rfl) (.cons (.close _) (.nil _))))
    simp [hy, cancel]
  have hplace := hcut.place 0 x rfl
  have hplace' := hcut.place 1 y rfl
  refine ⟨archive, _, _, h, hrun, rfl, ?_, ?_, by simp [hx, hy], hruns _ _ hrun⟩
  · rw [hplace, List.take_take]
    simp
  · rw [hplace, hplace']
    simp

end Account

end Storefront.Delivery
