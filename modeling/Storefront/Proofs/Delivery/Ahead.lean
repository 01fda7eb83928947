import Storefront.Delivery.Stream
import Storefront.Proofs.Delivery.Worker
/-!
What lies ahead of a consumer: the rest of the archive, cut where the worker cuts it. The worker and the
calls of the consumer move its chunks, and only the calls take bytes from its front.
-/

namespace Storefront.Delivery

/-- There is nothing left to take, and nobody will send more. -/
structure Over (s : Delivery) : Prop where
  pending : s.pending.length ≤ s.offset
  queue : s.queue = []
  ended : s.closed = true ∨ s.outcome ≠ none

theorem isEnded_iff {s : Delivery} :
    (s.closed || s.outcome.isSome) = true ↔ s.closed = true ∨ s.outcome ≠ none := by
  rw [Bool.or_eq_true, Option.isSome_iff_ne_none]

/-! What the steps can do -/

theorem work?_cases {s s' : Delivery} (h : s.work? = some s') :
    s.outcome = none ∧
      ((s.unsent = [] ∧ s' = { s with outcome := some s.final }) ∨
        (∃ message unsent, s.unsent = .error message :: unsent ∧
          ((s.closed = true ∧ s' = { s with unsent }) ∨
            (s.closed = false ∧ s.queue.length < s.capacity ∧
              s' = { s with unsent, queue := s.queue ++ [.error message] }))) ∨
        ∃ chunk unsent, s.unsent = .ok chunk :: unsent ∧
          ((s.sending = false ∧ s.cancelled = true ∧
              s' = { s with outcome := some (.aborted s.accepted) }) ∨
            (s.sending = false ∧ s.cancelled = false ∧ s' = { s with sending := true }) ∨
            (s.sending = true ∧ s.closed = true ∧
              s' = { s with outcome := some (.aborted s.accepted) }) ∨
            (s.sending = true ∧ s.closed = false ∧ s.queue.length < s.capacity ∧
              s' = { s with unsent, sending := false, queue := s.queue ++ [.ok chunk],
                            accepted := s.accepted + chunk.length }))) := by
  cases ho : s.outcome with
  | some outcome => simp [work?, ho] at h
  | none =>
    refine ⟨rfl, ?_⟩
    match hu : s.unsent with
    | [] =>
      simp only [work?, ho, hu, Option.some.injEq] at h
      exact .inl ⟨rfl, h.symm⟩
    | .error message :: unsent =>
      refine .inr (.inl ⟨message, unsent, rfl, ?_⟩)
      cases hclosed : s.closed with
      | true =>
        simp only [work?, ho, hu, hclosed, if_true, Option.some.injEq] at h
        exact .inl ⟨rfl, h.symm⟩
      | false =>
        simp [work?, ho, hu, hclosed] at h
        exact .inr ⟨rfl, h.1, h.2.symm⟩
    | .ok chunk :: unsent =>
      refine .inr (.inr ⟨chunk, unsent, rfl, ?_⟩)
      cases hsending : s.sending with
      | false =>
        cases hcancelled : s.cancelled <;> simp [work?, ho, hu, hsending, hcancelled] at h
        · exact .inr (.inl ⟨rfl, rfl, h.symm⟩)
        · exact .inl ⟨rfl, rfl, h.symm⟩
      | true =>
        cases hclosed : s.closed with
        | true =>
          simp [work?, ho, hu, hsending, hclosed] at h
          exact .inr (.inr (.inl ⟨rfl, rfl, h.symm⟩))
        | false =>
          simp [work?, ho, hu, hsending, hclosed] at h
          exact .inr (.inr (.inr ⟨rfl, rfl, h.1, h.2.symm⟩))

theorem work?_keeps {s s' : Delivery} (h : s.work? = some s') (hs : s.queue ≠ [] ∨ s.outcome ≠ none) :
    s'.queue ≠ [] ∨ s'.outcome ≠ none := by
  obtain ⟨ho, ⟨_, rfl⟩ | ⟨message, unsent, _, hcases⟩ | ⟨chunk, unsent, _, hcases⟩⟩ := work?_cases h
  · simp
  · obtain ⟨_, rfl⟩ | ⟨_, _, rfl⟩ := hcases
    · exact hs
    · simp
  · obtain ⟨_, _, rfl⟩ | ⟨_, _, rfl⟩ | ⟨_, _, rfl⟩ | ⟨_, _, _, rfl⟩ := hcases
    · simp
    · exact hs
    · simp
    · simp

theorem workFor_keeps {s : Delivery} (n : Nat) (h : s.queue ≠ [] ∨ s.outcome ≠ none) :
    (s.workFor n).queue ≠ [] ∨ (s.workFor n).outcome ≠ none := by
  induction n generalizing s with
  | zero => exact h
  | succ n ih =>
    cases hs : s.work? with
    | none => simpa [workFor, hs] using h
    | some t => simpa [workFor, hs] using ih (work?_keeps hs h)

theorem next?_cases {s s' : Delivery} {answer : Option Chunk} (h : s.next? = some (answer, s')) :
    (s.offset < s.pending.length ∧ answer = some (.ok (s.pending.drop s.offset)) ∧
        s' = { s with pending := [], offset := 0 }) ∨
      (s.pending.length ≤ s.offset ∧
        ∃ chunk queue, s.queue = chunk :: queue ∧ answer = some chunk ∧ s' = { s with queue }) ∨
      (Over s ∧ answer = none ∧ s' = s) := by
  by_cases hlt : s.offset < s.pending.length
  · simp only [next?, hlt, if_true, Option.some.injEq, Prod.mk.injEq] at h
    exact .inl ⟨hlt, h.1.symm, h.2.symm⟩
  · have hle : s.pending.length ≤ s.offset := by omega
    cases hq : s.queue with
    | cons chunk queue =>
      simp only [next?, hlt, if_false, receive?, hq, Option.some.injEq, Prod.mk.injEq] at h
      exact .inr (.inl ⟨hle, chunk, queue, rfl, h.1.symm, h.2.symm⟩)
    | nil =>
      by_cases hend : (s.closed || s.outcome.isSome) = true
      · simp only [next?, hlt, if_false, receive?, hq, hend, if_true, Option.some.injEq, Prod.mk.injEq] at h
        exact .inr (.inr ⟨⟨hle, hq, isEnded_iff.mp hend⟩, h.1.symm, h.2.symm⟩)
      · simp [next?, hlt, receive?, hq, hend] at h

theorem refill?_of_lt {s : Delivery} {pending : List UInt8} {offset : Nat} (queue : List Chunk)
    (h : offset < pending.length) :
    s.refill? pending offset queue = some (.ok true, { s with pending, offset, queue }) := by
  rw [refill?.eq_def, if_pos h]

theorem refill?_cases {s s' : Delivery} {pending : List UInt8} {offset : Nat} {queue : List Chunk}
    {found : Except String Bool} (h : s.refill? pending offset queue = some (found, s')) :
    (found = .ok true ∧ s'.offset < s'.pending.length) ∨ (found = .ok false ∧ Over s') ∨
      ∃ message, found = .error message ∧ .error message ∈ queue := by
  induction queue generalizing pending offset with
  | nil =>
    by_cases hlt : offset < pending.length
    · simp only [refill?_of_lt _ hlt, Option.some.injEq, Prod.mk.injEq] at h
      obtain ⟨rfl, rfl⟩ := h
      exact .inl ⟨rfl, hlt⟩
    · by_cases hend : (s.closed || s.outcome.isSome) = true
      · simp only [refill?, hlt, if_false, hend, if_true, Option.some.injEq, Prod.mk.injEq] at h
        obtain ⟨rfl, rfl⟩ := h
        exact .inr (.inl ⟨rfl, Nat.le_of_not_lt hlt, rfl, isEnded_iff.mp hend⟩)
      · simp [refill?, hlt, hend] at h
  | cons item queue ih =>
    by_cases hlt : offset < pending.length
    · simp only [refill?_of_lt _ hlt, Option.some.injEq, Prod.mk.injEq] at h
      obtain ⟨rfl, rfl⟩ := h
      exact .inl ⟨rfl, hlt⟩
    · cases item with
      | ok chunk =>
        simp only [refill?, hlt, if_false] at h
        refine (ih h).imp_right (Or.imp_right ?_)
        rintro ⟨message, hfound, hmem⟩
        exact ⟨message, hfound, List.mem_cons_of_mem _ hmem⟩
      | error message =>
        simp only [refill?, hlt, if_false, Option.some.injEq, Prod.mk.injEq] at h
        exact .inr (.inr ⟨message, h.1.symm, List.mem_cons_self⟩)

theorem read?_cases {s s' : Delivery} {n : Nat} {answer : Except String (List UInt8)}
    (h : s.read? n = some (answer, s')) :
    (n = 0 ∧ answer = .ok [] ∧ s' = s) ∨
      (n ≠ 0 ∧ ∃ found t, s.refill? s.pending s.offset s.queue = some (found, t) ∧
        ((Over t ∧ answer = .ok [] ∧ s' = t) ∨
          (t.offset < t.pending.length ∧ ∃ bytes, answer = .ok bytes ∧
            bytes = (t.pending.drop t.offset).take n ∧ s' = { t with offset := t.offset + bytes.length }) ∨
          ∃ message, .error message ∈ s.queue ∧ found = .error message ∧ answer = .error message ∧
            s' = t)) := by
  by_cases hn : n = 0
  · simp only [read?, hn, if_true, Option.some.injEq, Prod.mk.injEq] at h
    exact .inl ⟨hn, h.1.symm, h.2.symm⟩
  · refine .inr ⟨hn, ?_⟩
    simp only [read?, hn, if_false, Option.map_eq_some_iff] at h
    obtain ⟨⟨found, t⟩, ht, h⟩ := h
    refine ⟨found, t, ht, ?_⟩
    obtain ⟨rfl, hlt⟩ | ⟨rfl, ho⟩ | ⟨message, rfl, hmem⟩ := refill?_cases ht
    · simp only [Prod.mk.injEq] at h
      obtain ⟨rfl, rfl⟩ := h
      refine .inr (.inl ⟨hlt, _, rfl, ?_, ?_⟩)
      · rw [List.take_eq_take_iff]
        omega
      · simp
    · simp only [Prod.mk.injEq] at h
      exact .inl ⟨ho, h.1.symm, h.2.symm⟩
    · simp only [Prod.mk.injEq] at h
      exact .inr (.inr ⟨message, hmem, rfl, h.1.symm, h.2.symm⟩)

theorem Over.next? {s : Delivery} (h : Over s) : s.next? = some (none, s) := by
  simp [Delivery.next?, Nat.not_lt.mpr h.pending, receive?, h.queue, isEnded_iff.mpr h.ended]

theorem Over.read? {s : Delivery} (h : Over s) (n : Nat) : s.read? n = some (.ok [], s) := by
  have hrefill : s.refill? s.pending s.offset [] = some (.ok false, s) := by
    rw [refill?, if_neg (Nat.not_lt.mpr h.pending), if_pos (isEnded_iff.mpr h.ended), ← h.queue]
  by_cases hn : n = 0 <;> simp [Delivery.read?, hn, h.queue, hrefill]

/-! What lies ahead -/

/-- The bytes from `pos` up to the end of the chunk that holds them. -/
def unread (archive : List UInt8) (size pos : Nat) : List UInt8 :=
  (archive.drop pos).take (size - pos % size)

def upcoming (archive : List UInt8) (size pos : Nat) : List (List UInt8) :=
  Archive.given (unread archive size pos) ++ cut size (archive.drop (pos + (size - pos % size)))

variable {archive : List UInt8} {size pos : Nat}

theorem unread_eq_nil_iff (hsize : 0 < size) : unread archive size pos = [] ↔ archive.length ≤ pos := by
  have hroom := Nat.mod_lt pos hsize
  rw [unread, List.take_eq_nil_iff, List.drop_eq_nil_iff]
  omega

theorem upcoming_of_le (h : archive.length ≤ pos) : upcoming archive size pos = [] := by
  rw [upcoming, unread, List.drop_eq_nil_of_le h, List.drop_eq_nil_of_le (by omega), List.take_nil, cut_nil]
  rfl

theorem upcoming_of_lt (hsize : 0 < size) (h : pos < archive.length) :
    upcoming archive size pos =
      unread archive size pos :: cut size (archive.drop (pos + (size - pos % size))) := by
  have hne : unread archive size pos ≠ [] := by
    rw [Ne, unread_eq_nil_iff hsize]
    omega
  rw [upcoming, Archive.given, if_neg hne]
  rfl

theorem upcoming_eq_cons (hsize : 0 < size) {chunk : List UInt8} {rest : List (List UInt8)}
    (h : upcoming archive size pos = chunk :: rest) :
    pos < archive.length ∧ unread archive size pos = chunk ∧
      cut size (archive.drop (pos + (size - pos % size))) = rest := by
  by_cases hpos : pos < archive.length
  · rw [upcoming_of_lt hsize hpos, List.cons.injEq] at h
    exact ⟨hpos, h⟩
  · rw [upcoming_of_le (by omega)] at h
    cases h

theorem upcoming_eq_nil (hsize : 0 < size) (h : upcoming archive size pos = []) : archive.length ≤ pos := by
  by_cases hpos : pos < archive.length
  · rw [upcoming_of_lt hsize hpos] at h
    cases h
  · omega

theorem nil_not_mem_upcoming (hsize : 0 < size) : [] ∉ upcoming archive size pos := by
  rw [upcoming, List.mem_append, not_or]
  exact ⟨Archive.nil_not_mem_given _, nil_not_mem_cut hsize _⟩

theorem given_take_append_cut (hsize : 0 < size) (bs : List UInt8) :
    Archive.given (bs.take size) ++ cut size (bs.drop size) = cut size bs := by
  by_cases h : bs = []
  · simp [h, Archive.given]
  · have htake : bs.take size ≠ [] := by
      rw [Ne, List.take_eq_nil_iff, not_or]
      exact ⟨by omega, h⟩
    rw [cut_of_ne_nil hsize h, Archive.given, if_neg htake]
    rfl

theorem upcoming_zero (hsize : 0 < size) : upcoming archive size 0 = cut size archive := by
  rw [upcoming, unread, Nat.zero_mod, Nat.sub_zero, Nat.zero_add, List.drop_zero]
  exact given_take_append_cut hsize archive

/-- Bytes taken from a chunk leave the rest of it and the chunks behind it. -/
theorem upcoming_add (hsize : 0 < size) {count : Nat} (h : count ≤ (unread archive size pos).length) :
    upcoming archive size (pos + count) =
      Archive.given ((unread archive size pos).drop count) ++
        cut size (archive.drop (pos + (size - pos % size))) := by
  have hmod := Nat.mod_lt pos hsize
  have hroom : count ≤ size - pos % size := by
    rw [unread, List.length_take] at h
    omega
  rcases Nat.lt_or_eq_of_le hroom with hlt | rfl
  · have hpos : (pos + count) % size = pos % size + count := by
      rw [Nat.add_mod, Nat.mod_eq_of_lt (by omega : count < size), Nat.mod_eq_of_lt (by omega)]
    have hend : pos + count + (size - (pos + count) % size) = pos + (size - pos % size) := by omega
    rw [upcoming, hend, unread, unread, hpos, List.drop_take, List.drop_drop, Nat.sub_sub]
  · have hpos : (pos + (size - pos % size)) % size = 0 := by
      have hdiv := Nat.div_add_mod pos size
      have hsum : pos + (size - pos % size) = size * (pos / size + 1) := by
        rw [Nat.mul_add, Nat.mul_one]
        omega
      rw [hsum, Nat.mul_mod_right]
    have hdrop : (unread archive size pos).drop (size - pos % size) = [] := by
      rw [unread, List.drop_take, Nat.sub_self, List.take_zero]
    have hcut := given_take_append_cut hsize (archive.drop (pos + (size - pos % size)))
    rw [List.drop_drop] at hcut
    rw [upcoming, unread, hpos, Nat.sub_zero, hdrop]
    exact hcut

theorem upcoming_add_unread (hsize : 0 < size) :
    upcoming archive size (pos + (unread archive size pos).length) =
      cut size (archive.drop (pos + (size - pos % size))) := by
  rw [upcoming_add hsize (Nat.le_refl _), List.drop_length]
  rfl

/-! Streams that nobody stopped -/

structure Runs (s : Delivery) : Prop where
  unsent : s.outcome ≠ none → s.unsent = []
  capacity : 0 < s.capacity
  cancelled : s.cancelled = false
  closed : s.closed = false

theorem runs_ofBundle (deflate : List UInt8 → List UInt8) (b : Bundle) (c : Chunking) :
    Runs (ofBundle deflate b c) := by
  refine ⟨?_, ?_, rfl, rfl⟩
  · simp [ofBundle]
  · simp only [ofBundle]
    omega

namespace Runs
variable {s s' : Delivery}

theorem ended (h : Runs s) (ho : Over s) : s.outcome ≠ none := by
  rcases ho.ended with hc | hended
  · rw [h.closed] at hc
    cases hc
  · exact hended

theorem work (h : Runs s) (hs : s.work? = some s') :
    Runs s' ∧ s'.pending = s.pending ∧ s'.offset = s.offset ∧
      s'.queue ++ s'.unsent = s.queue ++ s.unsent := by
  obtain ⟨ho, ⟨hu, rfl⟩ | ⟨message, unsent, hu, hcases⟩ | ⟨chunk, unsent, hu, hcases⟩⟩ := work?_cases hs
  · exact ⟨⟨fun _ => hu, h.capacity, h.cancelled, h.closed⟩, rfl, rfl, rfl⟩
  · obtain ⟨hc, _⟩ | ⟨_, _, rfl⟩ := hcases
    · rw [h.closed] at hc
      cases hc
    · exact ⟨⟨fun hne => absurd ho hne, h.capacity, h.cancelled, h.closed⟩, rfl, rfl, by simp [hu]⟩
  · obtain ⟨_, hc, _⟩ | ⟨_, _, rfl⟩ | ⟨_, hc, _⟩ | ⟨_, _, _, rfl⟩ := hcases
    · rw [h.cancelled] at hc
      cases hc
    · exact ⟨⟨h.unsent, h.capacity, h.cancelled, h.closed⟩, rfl, rfl, rfl⟩
    · rw [h.closed] at hc
      cases hc
    · exact ⟨⟨fun hne => absurd ho hne, h.capacity, h.cancelled, h.closed⟩, rfl, rfl, by simp [hu]⟩

theorem workFor (h : Runs s) (n : Nat) :
    Runs (s.workFor n) ∧ (s.workFor n).pending = s.pending ∧ (s.workFor n).offset = s.offset ∧
      (s.workFor n).queue ++ (s.workFor n).unsent = s.queue ++ s.unsent := by
  induction n generalizing s with
  | zero => exact ⟨h, rfl, rfl, rfl⟩
  | succ n ih =>
    cases hs : s.work? with
    | none => simpa [Delivery.workFor, hs] using h
    | some t =>
      obtain ⟨ht, hpending, hoffset, hitems⟩ := h.work hs
      obtain ⟨hlast, hpending', hoffset', hitems'⟩ := ih ht
      simp only [Delivery.workFor, hs]
      exact ⟨hlast, hpending'.trans hpending, hoffset'.trans hoffset, hitems'.trans hitems⟩

theorem ready (h : Runs s) :
    Runs s.ready ∧ s.ready.pending = s.pending ∧ s.ready.offset = s.offset ∧
      s.ready.queue ++ s.ready.unsent = s.queue ++ s.unsent := by
  unfold Delivery.ready
  split
  · exact ⟨h, rfl, rfl, rfl⟩
  · exact h.workFor 2

/-- Two steps of the worker are enough for something to take or for the end. -/
theorem ready_cases (h : Runs s) :
    s.ready.offset < s.ready.pending.length ∨ s.ready.queue ≠ [] ∨ s.ready.outcome ≠ none := by
  by_cases hs : s.offset < s.pending.length ∨ s.queue ≠ [] ∨ s.outcome ≠ none
  · have hnext : s.next?.isSome = true := by
      by_cases hlt : s.offset < s.pending.length
      · simp [next?, hlt]
      · cases hq : s.queue with
        | cons item queue => simp [next?, hlt, receive?, hq]
        | nil =>
          have ho : s.outcome ≠ none := by simpa [hlt, hq] using hs
          simp [next?, hlt, receive?, hq, isEnded_iff.mpr (.inr ho)]
    rwa [Delivery.ready, if_pos hnext]
  -- One step makes a waiting worker send, the second one brings its chunk into the empty queue.
  · simp only [not_or, Nat.not_lt, ne_eq, Decidable.not_not] at hs
    obtain ⟨hle, hq, ho⟩ := hs
    have hwait : s.next?.isSome = false := by
      simp [next?, Nat.not_lt.mpr hle, receive?, hq, h.closed, ho]
    have hroom := h.capacity
    have hkeeps {t : Delivery} (hwork : s.work? = some t) (ht : t.queue ≠ [] ∨ t.outcome ≠ none) :
        (s.workFor 2).queue ≠ [] ∨ (s.workFor 2).outcome ≠ none := by
      simpa [Delivery.workFor, hwork] using workFor_keeps 1 ht
    rw [Delivery.ready, hwait]
    refine .inr ?_
    match hu : s.unsent with
    | [] =>
      have hwork : s.work? = some { s with outcome := some s.final } := by simp [work?, ho, hu]
      exact hkeeps hwork (.inr (Option.some_ne_none _))
    | .error message :: unsent =>
      have hwork : s.work? = some { s with unsent, queue := [.error message] } := by
        simp [work?, ho, hu, h.closed, hq, hroom]
      exact hkeeps hwork (.inl (List.cons_ne_nil _ _))
    | .ok chunk :: unsent =>
      cases hsending : s.sending with
      | false =>
        simp [Delivery.workFor, work?, ho, hu, hsending, h.cancelled, h.closed, hq, hroom]
      | true =>
        have hwork : s.work? = some { s with unsent, sending := false, queue := [.ok chunk],
                                             accepted := s.accepted + chunk.length } := by
          simp [work?, ho, hu, hsending, h.closed, hq, hroom]
        exact hkeeps hwork (.inl (List.cons_ne_nil _ _))

end Runs

/-- A stream that nobody stopped, from which the bytes before `pos` were taken. -/
structure Serves (archive : List UInt8) (size pos : Nat) (s : Delivery) : Prop extends Runs s where
  ahead : (Archive.given (s.pending.drop s.offset)).map .ok ++ (s.queue ++ s.unsent) =
    (upcoming archive size pos).map .ok

theorem ofBundle_eq {deflate : List UInt8 → List UInt8} {b : Bundle} (h : Archive.pack deflate b = .ok archive)
    (c : Chunking) :
    ofBundle deflate b c = ⟨(cut (max c.size 1) archive).map .ok, .completed archive.length, false, [],
      max c.buffered 1, 0, [], 0, false, false, none⟩ := by
  simp [ofBundle, Worker.chunks_eq_cut h]

theorem serves_ofBundle {deflate : List UInt8 → List UInt8} {b : Bundle}
    (h : Archive.pack deflate b = .ok archive) (c : Chunking) :
    Serves archive (max c.size 1) 0 (ofBundle deflate b c) := by
  have hsize : 0 < max c.size 1 := by omega
  refine ⟨runs_ofBundle deflate b c, ?_⟩
  simp [ofBundle_eq h, upcoming_zero hsize, Archive.given]

namespace Serves
variable {s s' : Delivery}

theorem of_items (h : Serves archive size pos s) (hs' : Runs s') (hpending : s'.pending = s.pending)
    (hoffset : s'.offset = s.offset) (hitems : s'.queue ++ s'.unsent = s.queue ++ s.unsent) :
    Serves archive size pos s' :=
  ⟨hs', by rw [hpending, hoffset, hitems, h.ahead]⟩

theorem work (h : Serves archive size pos s) (hs : s.work? = some s') : Serves archive size pos s' := by
  obtain ⟨hs', hpending, hoffset, hitems⟩ := h.toRuns.work hs
  exact h.of_items hs' hpending hoffset hitems

theorem exists_of_mem (hsize : 0 < size) (h : Serves archive size pos s) {item : Chunk}
    (hitem : item ∈ s.queue) : ∃ chunk, chunk ≠ [] ∧ item = .ok chunk := by
  have hmem : item ∈ (upcoming archive size pos).map .ok := by
    rw [← h.ahead]
    simp [hitem]
  obtain ⟨chunk, hchunk, rfl⟩ := List.mem_map.mp hmem
  refine ⟨chunk, ?_, rfl⟩
  rintro rfl
  exact nil_not_mem_upcoming hsize hchunk

theorem length_le (hsize : 0 < size) (h : Serves archive size pos s) (ho : Over s) : archive.length ≤ pos := by
  have hahead := h.ahead
  rw [List.drop_eq_nil_of_le ho.pending, ho.queue, h.unsent (h.ended ho)] at hahead
  exact upcoming_eq_nil hsize (List.map_eq_nil_iff.mp hahead.symm)

theorem of_cons (hsize : 0 < size) {item : Chunk} {items : List Chunk}
    (h : item :: items = (upcoming archive size pos).map .ok) :
    pos < archive.length ∧ item = .ok (unread archive size pos) ∧
      items = (cut size (archive.drop (pos + (size - pos % size)))).map .ok := by
  obtain ⟨chunk, rest, hupcoming, rfl, rfl⟩ := List.map_eq_cons_iff.mp h.symm
  obtain ⟨hpos, rfl, rfl⟩ := upcoming_eq_cons hsize hupcoming
  exact ⟨hpos, rfl, rfl⟩

theorem next (hsize : 0 < size) (h : Serves archive size pos s) {answer : Option Chunk}
    (hs : s.next? = some (answer, s')) :
    (answer = none ∧ archive.length ≤ pos ∧ Serves archive size pos s') ∨
      (answer = some (.ok (unread archive size pos)) ∧ pos < archive.length ∧
        Serves archive size (pos + (unread archive size pos).length) s') := by
  have hahead := h.ahead
  obtain ⟨hlt, rfl, rfl⟩ | ⟨hle, item, queue, hq, rfl, rfl⟩ | ⟨ho, rfl, rfl⟩ := next?_cases hs
  · have hne : s.pending.drop s.offset ≠ [] := by
      rw [Ne, List.drop_eq_nil_iff]
      omega
    rw [Archive.given, if_neg hne, List.map_singleton, List.singleton_append] at hahead
    obtain ⟨hpos, hitem, hrest⟩ := of_cons hsize hahead
    refine .inr ⟨congrArg some hitem, hpos, ⟨h.unsent, h.capacity, h.cancelled, h.closed⟩, ?_⟩
    rw [upcoming_add_unread hsize, ← hrest]
    rfl
  · rw [List.drop_eq_nil_of_le hle, hq] at hahead
    obtain ⟨hpos, rfl, hrest⟩ := of_cons hsize hahead
    refine .inr ⟨rfl, hpos, ⟨h.unsent, h.capacity, h.cancelled, h.closed⟩, ?_⟩
    rw [upcoming_add_unread hsize, ← hrest, List.drop_eq_nil_of_le hle]
    rfl
  · exact .inl ⟨rfl, h.length_le hsize ho, h⟩

theorem refill (hsize : 0 < size) {pending : List UInt8} {offset : Nat} {queue : List Chunk}
    {found : Except String Bool} (h : Serves archive size pos { s with pending, offset, queue })
    (hs : s.refill? pending offset queue = some (found, s')) : Serves archive size pos s' := by
  induction queue generalizing pending offset with
  | nil =>
    by_cases hlt : offset < pending.length
    · simp only [refill?_of_lt _ hlt, Option.some.injEq, Prod.mk.injEq] at hs
      exact hs.2 ▸ h
    · by_cases hend : (s.closed || s.outcome.isSome) = true
      · simp only [refill?, hlt, if_false, hend, if_true, Option.some.injEq, Prod.mk.injEq] at hs
        exact hs.2 ▸ h
      · simp [refill?, hlt, hend] at hs
  | cons item queue ih =>
    by_cases hlt : offset < pending.length
    · simp only [refill?_of_lt _ hlt, Option.some.injEq, Prod.mk.injEq] at hs
      exact hs.2 ▸ h
    · -- the next chunk is never empty, so a refill takes no second one
      obtain ⟨chunk, hne, rfl⟩ := h.exists_of_mem hsize List.mem_cons_self
      have hahead := h.ahead
      simp only [refill?, hlt, if_false] at hs
      refine ih ⟨⟨h.unsent, h.capacity, h.cancelled, h.closed⟩, ?_⟩ hs
      simp only [List.drop_eq_nil_of_le (Nat.le_of_not_lt hlt)] at hahead
      rw [← hahead, List.drop_zero, Archive.given, if_neg hne]
      rfl

theorem read (hsize : 0 < size) (h : Serves archive size pos s) {n : Nat}
    {answer : Except String (List UInt8)} (hs : s.read? n = some (answer, s')) :
    answer = .ok ((unread archive size pos).take n) ∧
      Serves archive size (pos + ((unread archive size pos).take n).length) s' := by
  obtain ⟨rfl, rfl, rfl⟩ | ⟨hn, found, t, ht, hcases⟩ := read?_cases hs
  · rw [List.take_zero]
    exact ⟨rfl, h⟩
  · have hserves := refill hsize h ht
    have hahead := hserves.ahead
    obtain ⟨ho, rfl, rfl⟩ | ⟨hlt, bytes, rfl, hbytes, rfl⟩ | ⟨message, hmem, _⟩ := hcases
    · have hpos := hserves.length_le hsize ho
      rw [(unread_eq_nil_iff hsize).mpr hpos, List.take_nil]
      exact ⟨rfl, hserves⟩
    · have hne : t.pending.drop t.offset ≠ [] := by
        rw [Ne, List.drop_eq_nil_iff]
        omega
      rw [Archive.given, if_neg hne, List.map_singleton, List.singleton_append] at hahead
      obtain ⟨hpos, hitem, hrest⟩ := of_cons hsize hahead
      rw [Except.ok.injEq] at hitem
      rw [hitem] at hbytes
      rw [← hbytes]
      refine ⟨rfl, ⟨hserves.unsent, hserves.capacity, hserves.cancelled, hserves.closed⟩, ?_⟩
      have hcount : bytes.length ≤ (unread archive size pos).length := by
        rw [hbytes, List.length_take]
        omega
      rw [upcoming_add hsize hcount, ← hitem, List.map_append, ← hrest, List.drop_drop]
    · obtain ⟨chunk, -, hchunk⟩ := h.exists_of_mem hsize hmem
      cases hchunk

theorem answers (hsize : 0 < size) (h : Serves archive size pos s)
    (hs : s.offset < s.pending.length ∨ s.queue ≠ [] ∨ s.outcome ≠ none) :
    s.next?.isSome = true ∧ ∀ n, (s.read? n).isSome = true := by
  by_cases hlt : s.offset < s.pending.length
  · refine ⟨by simp [next?, hlt], fun n => ?_⟩
    by_cases hn : n = 0
    · simp [read?, hn]
    · simp [read?, hn, refill?_of_lt _ hlt]
  · cases hq : s.queue with
    | cons item queue =>
      have hmem : item ∈ s.queue := by simp [hq]
      obtain ⟨chunk, hchunk, rfl⟩ := h.exists_of_mem hsize hmem
      refine ⟨by simp [next?, hlt, receive?, hq], fun n => ?_⟩
      have hpos : 0 < chunk.length := List.length_pos_iff.mpr hchunk
      by_cases hn : n = 0
      · simp [read?, hn]
      · simp [read?, hn, hq, refill?, hlt, refill?_of_lt _ hpos]
    | nil =>
      have ho : s.outcome ≠ none := by simpa [hlt, hq] using hs
      have hover : Over s := ⟨by omega, hq, .inr ho⟩
      simp [hover.next?, hover.read?]

theorem ready (h : Serves archive size pos s) : Serves archive size pos s.ready := by
  obtain ⟨hready, hpending, hoffset, hitems⟩ := h.toRuns.ready
  exact h.of_items hready hpending hoffset hitems

theorem ready_answers (hsize : 0 < size) (h : Serves archive size pos s) :
    s.ready.next?.isSome = true ∧ ∀ n, (s.ready.read? n).isSome = true :=
  h.ready.answers hsize h.toRuns.ready_cases

end Serves

end Storefront.Delivery
