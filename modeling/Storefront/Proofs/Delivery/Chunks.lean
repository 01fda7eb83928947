import Storefront.Delivery.Worker
import Storefront.Proofs.Archive.Feed
/-!
The chunks of an archive. However its bytes come in pieces, the worker sends the archive cut at the
multiples of the chunk size.
-/

namespace Storefront.Delivery

def full (size : Nat) (bs : List UInt8) : List (List UInt8) := (split size (bs.length / size) bs).1

def left (size : Nat) (bs : List UInt8) : List UInt8 := (split size (bs.length / size) bs).2

def cut (size : Nat) (bs : List UInt8) : List (List UInt8) := full size bs ++ Archive.given (left size bs)

variable {size : Nat}

theorem full_of_lt {bs : List UInt8} (h : bs.length < size) : full size bs = [] := by
  rw [full, Nat.div_eq_of_lt h]
  rfl

theorem left_of_lt {bs : List UInt8} (h : bs.length < size) : left size bs = bs := by
  rw [left, Nat.div_eq_of_lt h]
  rfl

theorem full_left_of_le {bs : List UInt8} (hsize : 0 < size) (h : size ≤ bs.length) :
    full size bs = bs.take size :: full size (bs.drop size) ∧ left size bs = left size (bs.drop size) := by
  have hcount : bs.length / size = (bs.drop size).length / size + 1 := by
    rw [List.length_drop]
    exact Nat.div_eq_sub_div hsize h
  simp [full, left, hcount, split]

theorem chunk_induction {motive : List UInt8 → Prop} (hsize : 0 < size)
    (short : ∀ bs, bs.length < size → motive bs)
    (long : ∀ bs, size ≤ bs.length → motive (bs.drop size) → motive bs) (bs : List UInt8) : motive bs := by
  by_cases hlt : bs.length < size
  · exact short bs hlt
  · have hle : size ≤ bs.length := by omega
    exact long bs hle (chunk_induction hsize short long (bs.drop size))
termination_by bs.length
decreasing_by
  rw [List.length_drop]
  omega

theorem length_left (hsize : 0 < size) (bs : List UInt8) : (left size bs).length < size := by
  induction bs using chunk_induction hsize with
  | short bs h => rwa [left_of_lt h]
  | long bs h ih => rwa [(full_left_of_le hsize h).2]

/-- What is left behind filled chunks goes in front of the bytes that come next. -/
theorem full_left_append (hsize : 0 < size) (bs cs : List UInt8) :
    full size (bs ++ cs) = full size bs ++ full size (left size bs ++ cs) ∧
      left size (bs ++ cs) = left size (left size bs ++ cs) := by
  induction bs using chunk_induction hsize with
  | short bs h => simp [full_of_lt h, left_of_lt h]
  | long bs h ih =>
    have happend : size ≤ (bs ++ cs).length := by
      rw [List.length_append]
      omega
    obtain ⟨hfull, hleft⟩ := full_left_of_le hsize h
    obtain ⟨hfull', hleft'⟩ := full_left_of_le hsize happend
    rw [List.drop_append_of_le_length h] at hfull' hleft'
    rw [List.take_append_of_le_length h] at hfull'
    rw [hfull', hleft', ih.1, ih.2, hfull, hleft]
    exact ⟨rfl, rfl⟩

@[simp] theorem cut_nil : cut size [] = [] := by
  simp [cut, full, left, split, Archive.given]

theorem cut_of_lt {bs : List UInt8} (h : bs.length < size) : cut size bs = Archive.given bs := by
  rw [cut, full_of_lt h, left_of_lt h, List.nil_append]

theorem cut_of_le {bs : List UInt8} (hsize : 0 < size) (h : size ≤ bs.length) :
    cut size bs = bs.take size :: cut size (bs.drop size) := by
  obtain ⟨hfull, hleft⟩ := full_left_of_le hsize h
  rw [cut, hfull, hleft]
  rfl

theorem cut_of_ne_nil {bs : List UInt8} (hsize : 0 < size) (h : bs ≠ []) :
    cut size bs = bs.take size :: cut size (bs.drop size) := by
  by_cases hlt : bs.length < size
  · have hle : bs.length ≤ size := by omega
    rw [cut_of_lt hlt, List.drop_eq_nil_of_le hle, List.take_of_length_le hle, cut_nil, Archive.given,
      if_neg h]
  · exact cut_of_le hsize (by omega)

theorem nil_not_mem_cut (hsize : 0 < size) (bs : List UInt8) : [] ∉ cut size bs := by
  induction bs using chunk_induction hsize with
  | short bs h =>
    rw [cut_of_lt h]
    exact Archive.nil_not_mem_given bs
  | long bs h ih =>
    rw [cut_of_le hsize h, List.mem_cons, not_or]
    refine ⟨fun htake => ?_, ih⟩
    have := congrArg List.length htake
    rw [List.length_nil, List.length_take] at this
    omega

namespace Worker
variable {τ : Type} {send : τ → Chunk → Option τ} {deflate : List UInt8 → List UInt8}

theorem carry_of_sendAll {w w' : Worker τ} {chunks : List (List UInt8)}
    {answer : Except Archive.PackFault Unit} (h : sendAll send w chunks = (w', answer)) :
    w'.carry = w.carry := by
  induction chunks generalizing w with
  | nil =>
    cases h
    rfl
  | cons chunk r ih =>
    cases hs : send w.target (.ok chunk) with
    | none =>
      simp only [sendAll, hs, Prod.mk.injEq] at h
      rw [h.1]
    | some target =>
      simp only [sendAll, hs] at h
      rw [ih h]

theorem sendAll_with_carry {w w' : Worker τ} {chunks : List (List UInt8)}
    {answer : Except Archive.PackFault Unit} (h : sendAll send w chunks = (w', answer))
    (carry : List UInt8) : sendAll send { w with carry } chunks = ({ w' with carry }, answer) := by
  induction chunks generalizing w with
  | nil =>
    cases h
    rfl
  | cons chunk r ih =>
    cases hs : send w.target (.ok chunk) with
    | none =>
      simp only [sendAll, hs, Prod.mk.injEq] at h
      obtain ⟨rfl, rfl⟩ := h
      simp [sendAll, hs]
    | some target =>
      simp only [sendAll, hs] at h
      simp [sendAll, hs, ih h]

theorem sendAll_append (w : Worker τ) (l m : List (List UInt8)) :
    sendAll send w (l ++ m) =
      match sendAll send w l with
      | (w, .ok ()) => sendAll send w m
      | (w, .error fault) => (w, .error fault) := by
  induction l generalizing w with
  | nil => rfl
  | cons chunk r ih =>
    cases hs : send w.target (.ok chunk) with
    | none => simp [sendAll, hs]
    | some target => simp [sendAll, hs, ih]

theorem sendAll_fault {w w' : Worker τ} {chunks : List (List UInt8)} {fault : Archive.PackFault}
    (h : sendAll send w chunks = (w', .error fault)) : fault = .aborted := by
  induction chunks generalizing w with
  | nil => cases h
  | cons chunk r ih =>
    cases hs : send w.target (.ok chunk) with
    | none =>
      simp only [sendAll, hs, Prod.mk.injEq, Except.error.injEq] at h
      exact h.2.symm
    | some target =>
      simp only [sendAll, hs] at h
      exact ih h

/-- The chunks do not depend on the pieces, only on their bytes. -/
theorem feed_sink (hsize : 0 < size) (w : Worker τ) (hcarry : w.carry.length < size)
    (pieces : List (List UInt8)) :
    ∃ carry, Archive.feed (sink size send) w pieces =
        sendAll send { w with carry } (full size (w.carry ++ pieces.flatten)) ∧
      ((Archive.feed (sink size send) w pieces).2 = .ok () →
        carry = left size (w.carry ++ pieces.flatten)) := by
  -- a refused chunk leaves other bytes behind than the end of the pieces does
  induction pieces generalizing w with
  | nil =>
    refine ⟨w.carry, ?_, fun _ => ?_⟩
    · simp [Archive.feed, full_of_lt hcarry, sendAll]
    · simp [left_of_lt hcarry]
  | cons piece r ih =>
    obtain ⟨hfull, hleft⟩ := full_left_append hsize (w.carry ++ piece) r.flatten
    have hsink : sink size send w piece =
        sendAll send { w with carry := left size (w.carry ++ piece) } (full size (w.carry ++ piece)) := rfl
    rw [List.flatten_cons, ← List.append_assoc, hfull, hleft]
    obtain ⟨w', answer, hw'⟩ : ∃ w' answer, sendAll send { w with carry := left size (w.carry ++ piece) }
      (full size (w.carry ++ piece)) = (w', answer) := ⟨_, _, rfl⟩
    cases answer with
    | error fault =>
      refine ⟨left size (w.carry ++ piece), ?_, fun h => ?_⟩
      · simp [Archive.feed, hsink, hw', sendAll_append]
      · simp [Archive.feed, hsink, hw'] at h
    | ok u =>
      have hcarry' : w'.carry = left size (w.carry ++ piece) := carry_of_sendAll hw'
      obtain ⟨carry, heq, hok⟩ := ih w' (by rw [hcarry']; exact length_left hsize _)
      rw [hcarry'] at heq hok
      refine ⟨carry, ?_, fun h => hok ?_⟩
      · have hw := sendAll_with_carry hw' carry
        simp only [Archive.feed, hsink, hw', heq, sendAll_append] at hw ⊢
        rw [hw]
      · simpa [Archive.feed, hsink, hw'] using h

def fed (size : Nat) (send : τ → Chunk → Option τ) (target : τ) (pieces : List (List UInt8)) :
    τ × Outcome :=
  conclude send
    (Archive.answered (.ok pieces.flatten.length) (Archive.feed (sink size send) ⟨[], 0, target⟩ pieces))

/-- A worker sends the bytes of the pieces cut into chunks, up to the first chunk that is refused. -/
theorem fed_eq_sendAll (hsize : 0 < size) (target : τ) (pieces : List (List UInt8)) :
    fed size send target pieces =
      match sendAll send ⟨[], 0, target⟩ (cut size pieces.flatten) with
      | (w, .ok ()) => (w.target, .completed pieces.flatten.length)
      | (w, .error _) => (w.target, .aborted w.sent) := by
  obtain ⟨carry, hfeed, hcarry⟩ := @feed_sink _ _ send hsize ⟨[], 0, target⟩ hsize pieces
  simp only [List.nil_append] at hfeed hcarry
  rw [fed, cut, sendAll_append]
  rw [hfeed] at hcarry ⊢
  obtain ⟨w, answer, hw⟩ : ∃ w answer,
    sendAll send ⟨[], 0, target⟩ (full size pieces.flatten) = (w, answer) := ⟨_, _, rfl⟩
  have hw' := sendAll_with_carry hw carry
  simp only [hw'] at hcarry ⊢
  simp only [hw]
  cases answer with
  | error fault =>
    rw [sendAll_fault hw]
    rfl
  | ok u =>
    rw [hcarry rfl]
    simp only [conclude, Archive.answered, Except.bind]
    have hnil : { w with carry := [] } = w := by
      have hc : w.carry = [] := carry_of_sendAll hw
      rw [← hc]
    by_cases hleft : left size pieces.flatten = []
    · simp [Archive.give, Archive.given, hleft, sendAll]
    · obtain ⟨w', answer, hlast⟩ : ∃ w' answer,
        sendAll send w [left size pieces.flatten] = (w', answer) := ⟨_, _, rfl⟩
      cases answer <;> simp [Archive.give, Archive.given, hleft, hnil, hlast]

theorem run_eq_fed {b : Bundle} {archive : List UInt8} (h : Archive.pack deflate b = .ok archive)
    (size : Nat) (target : τ) : ∃ pieces, pieces.flatten = archive ∧
      run deflate b size send target = fed (max size 1) send target pieces := by
  obtain ⟨pieces, _, rfl, _, hpack⟩ := Archive.packInto_eq_feed h
  refine ⟨pieces, rfl, ?_⟩
  rw [run, hpack]
  rfl

theorem run_eq_sendAll {b : Bundle} {archive : List UInt8} (h : Archive.pack deflate b = .ok archive)
    (size : Nat) (target : τ) :
    run deflate b size send target =
      match sendAll send ⟨[], 0, target⟩ (cut (max size 1) archive) with
      | (w, .ok ()) => (w.target, .completed archive.length)
      | (w, .error _) => (w.target, .aborted w.sent) := by
  have hsize : 0 < max size 1 := by omega
  obtain ⟨pieces, rfl, hrun⟩ := @run_eq_fed _ send _ _ _ h size target
  rw [hrun, fed_eq_sendAll hsize]

end Worker

end Storefront.Delivery
