import Mathlib.Data.List.Basic
import Storefront.Proofs.Archive.Deflate
import Storefront.Proofs.Delivery.Chunks
/-!
What a worker sends. It cuts an archive into consecutive chunks of one size, the last of which may be
shorter, and sends them in their order up to the first that is refused.
-/

namespace Storefront.Delivery

/-- Bytes in consecutive chunks of `size` bytes, of which only the last may be shorter. -/
structure IsCut (size : Nat) (bs : List UInt8) (chunks : List (List UInt8)) : Prop where
  whole : chunks.flatten = bs
  count : chunks.length = (bs.length + size - 1) / size
  place : ∀ i chunk, chunks[i]? = some chunk → chunk = (bs.drop (i * size)).take size
  full : ∀ i chunk, chunks[i]? = some chunk → i + 1 < chunks.length → chunk.length = size
  last : ∀ chunk, chunks.getLast? = some chunk → 0 < chunk.length ∧ chunk.length ≤ size

variable {size : Nat}

theorem flatten_cut (hsize : 0 < size) (bs : List UInt8) : (cut size bs).flatten = bs := by
  induction bs using chunk_induction hsize with
  | short bs h => rw [cut_of_lt h, Archive.flatten_given]
  | long bs h ih => rw [cut_of_le hsize h, List.flatten_cons, ih, List.take_append_drop]

theorem length_cut (hsize : 0 < size) (bs : List UInt8) :
    (cut size bs).length = (bs.length + size - 1) / size := by
  induction bs using chunk_induction hsize with
  | short bs h =>
    rw [cut_of_lt h]
    by_cases hbs : bs = []
    · have hnone : (size - 1) / size = 0 := Nat.div_eq_of_lt (by omega)
      simp [hbs, Archive.given, hnone]
    · have hpos := List.length_pos_iff.mpr hbs
      have hone : (bs.length + size - 1) / size = 1 := Nat.div_eq_of_lt_le (by omega) (by omega)
      simp [Archive.given, hbs, hone]
  | long bs h ih =>
    have hstep : (bs.length + size - 1) / size = (bs.length - size + size - 1) / size + 1 := by
      rw [Nat.div_eq_sub_div hsize (by omega)]
      congr 2
      omega
    rw [cut_of_le hsize h, List.length_cons, ih, List.length_drop, hstep]

theorem getElem?_cut_eq_some_iff (hsize : 0 < size) {bs chunk : List UInt8} {i : Nat} :
    (cut size bs)[i]? = some chunk ↔ i * size < bs.length ∧ chunk = (bs.drop (i * size)).take size := by
  induction i generalizing bs with
  | zero =>
    by_cases hbs : bs = []
    · simp [hbs]
    · have hpos := List.length_pos_iff.mpr hbs
      simp [cut_of_ne_nil hsize hbs, hpos, eq_comm]
  | succ i ih =>
    have hplace : size + i * size = (i + 1) * size := by rw [Nat.succ_mul, Nat.add_comm]
    by_cases hbs : bs = []
    · simp [hbs]
    · rw [cut_of_ne_nil hsize hbs, List.getElem?_cons_succ, ih, List.length_drop, List.drop_drop, hplace]
      refine and_congr_left fun _ => ?_
      omega

theorem isCut_cut (hsize : 0 < size) (bs : List UInt8) : IsCut size bs (cut size bs) := by
  refine ⟨flatten_cut hsize bs, length_cut hsize bs, ?_, ?_, ?_⟩
  · intro i chunk hchunk
    exact ((getElem?_cut_eq_some_iff hsize).mp hchunk).2
  · intro i chunk hchunk hi
    obtain ⟨_, rfl⟩ := (getElem?_cut_eq_some_iff hsize).mp hchunk
    -- there is a byte of the next chunk, so this one is filled
    have hnext := ((getElem?_cut_eq_some_iff hsize).mp (List.getElem?_eq_getElem hi)).1
    rw [Nat.succ_mul] at hnext
    rw [List.length_take, List.length_drop]
    omega
  · intro chunk hchunk
    rw [List.getLast?_eq_getElem?] at hchunk
    obtain ⟨hplace, rfl⟩ := (getElem?_cut_eq_some_iff hsize).mp hchunk
    rw [List.length_take, List.length_drop]
    omega

namespace Worker
variable {τ : Type} {send : τ → Chunk → Option τ} {deflate : List UInt8 → List UInt8}

def recorded (send : τ → Chunk → Option τ) (t : τ × List Chunk) (chunk : Chunk) : Option (τ × List Chunk) :=
  (send t.1 chunk).map (·, t.2 ++ [chunk])

theorem foldlM_recorded {chunks : List Chunk} {target target' : τ}
    (h : chunks.foldlM send target = some target') (log : List Chunk) :
    chunks.foldlM (recorded send) (target, log) = some (target', log ++ chunks) := by
  induction chunks generalizing target log with
  | nil =>
    cases h
    simp
  | cons chunk chunks ih =>
    rw [List.foldlM_cons] at h
    obtain ⟨t, hsend, hrest⟩ := Option.bind_eq_some_iff.mp h
    have hrecorded : recorded send (target, log) chunk = some (t, log ++ [chunk]) := by
      simp [recorded, hsend]
    rw [List.foldlM_cons, hrecorded]
    simpa using ih hrest (log ++ [chunk])

theorem foldlM_keep (sent chunks : List Chunk) :
    chunks.foldlM (fun sent chunk => some (chunk :: sent)) sent = some (chunks.reverse ++ sent) := by
  induction chunks generalizing sent with
  | nil => rfl
  | cons chunk chunks ih => simp [ih]

theorem sendAll_of_accepted {chunks : List (List UInt8)} {w : Worker τ} {target : τ}
    (h : (chunks.map .ok).foldlM send w.target = some target) :
    sendAll send w chunks = ({ w with sent := w.sent + chunks.flatten.length, target }, .ok ()) := by
  induction chunks generalizing w with
  | nil =>
    cases h
    rfl
  | cons chunk chunks ih =>
    rw [List.map_cons, List.foldlM_cons] at h
    obtain ⟨t, hsend, hrest⟩ := Option.bind_eq_some_iff.mp h
    simp only [sendAll, hsend]
    rw [ih hrest]
    simp [Nat.add_assoc]

theorem sendAll_of_refused {front : List (List UInt8)} {chunk : List UInt8} {w : Worker τ} {target : τ}
    (h : (front.map .ok).foldlM send w.target = some target) (hrefused : send target (.ok chunk) = none)
    (back : List (List UInt8)) : sendAll send w (front ++ chunk :: back) =
      ({ w with sent := w.sent + front.flatten.length, target }, .error .aborted) := by
  rw [sendAll_append, sendAll_of_accepted h]
  simp [sendAll, hrefused]

variable {b : Bundle} {archive : List UInt8} {target target' : τ}

theorem run_of_accepted (h : Archive.pack deflate b = .ok archive) (size : Nat)
    (haccepted : ((cut (max size 1) archive).map .ok).foldlM send target = some target') :
    run deflate b size send target = (target', .completed archive.length) := by
  rw [run_eq_sendAll h, @sendAll_of_accepted _ _ _ ⟨[], 0, target⟩ _ haccepted]

theorem run_of_refused (h : Archive.pack deflate b = .ok archive) (size : Nat)
    {front back : List (List UInt8)} {chunk : List UInt8}
    (hcut : cut (max size 1) archive = front ++ chunk :: back)
    (haccepted : (front.map .ok).foldlM send target = some target')
    (hrefused : send target' (.ok chunk) = none) :
    run deflate b size send target = (target', .aborted front.flatten.length) := by
  rw [run_eq_sendAll h, hcut, @sendAll_of_refused _ _ _ _ ⟨[], 0, target⟩ _ haccepted hrefused]
  simp

/-- Where packing fails, the cause follows the chunks that were filled before. -/
theorem run_of_fault {fault : Archive.PackFault} (h : Archive.pack deflate b = .error fault) (size : Nat) :
    ∃ packed, ∀ {τ : Type} (send : τ → Chunk → Option τ) (target target' : τ),
      ((full (max size 1) packed).map .ok).foldlM send target = some target' →
      run deflate b size send target =
        ((send target' (.error fault.message)).getD target', .failed fault.message) := by
  obtain ⟨hne, pieces, hfeed⟩ := Archive.packInto_eq_feed_of_fault h
  have hsize : 0 < max size 1 := by omega
  refine ⟨pieces.flatten, fun send target target' haccepted => ?_⟩
  obtain ⟨carry, hsink, -⟩ := @feed_sink _ _ send hsize ⟨[], 0, target⟩ hsize pieces
  rw [List.nil_append, @sendAll_of_accepted _ _ _ ⟨carry, 0, target⟩ _ haccepted] at hsink
  rw [run, hfeed, hsink]
  cases fault with
  | aborted => exact absurd rfl hne
  | zip fault => rfl
  | io fault => rfl

theorem chunks_eq_cut (h : Archive.pack deflate b = .ok archive) (size : Nat) :
    chunks deflate b size = ((cut (max size 1) archive).map .ok, .completed archive.length) := by
  simp [chunks, run_of_accepted h size (foldlM_keep [] _)]

theorem chunks_of_fault {fault : Archive.PackFault} (h : Archive.pack deflate b = .error fault) (size : Nat) :
    ∃ packed, chunks deflate b size =
      ((full (max size 1) packed).map .ok ++ [.error fault.message], .failed fault.message) := by
  obtain ⟨packed, hrun⟩ := run_of_fault h size
  refine ⟨packed, ?_⟩
  simp [chunks, hrun _ _ _ (foldlM_keep [] _)]

/-- The archive of a bundle has one sequence of chunks for each size, where 0 counts as 1. A worker sends
just these, in whatever pieces it is given the archive. If none is refused, the work is completed with the
length of the archive; otherwise it is aborted at the first that is, with the bytes of those before. -/
theorem run_sends_chunks (deflate : List UInt8 → List UInt8) (b : Bundle) (size : Nat)
    {archive : List UInt8} (h : Archive.pack deflate b = .ok archive) :
    ∃ chunks, IsCut (max size 1) archive chunks ∧
      ∀ {τ : Type} (send : τ → Chunk → Option τ) (target : τ),
        (∀ target', (chunks.map .ok).foldlM send target = some target' →
          run deflate b size (recorded send) (target, []) =
            ((target', chunks.map .ok), .completed archive.length)) ∧
        (∀ j chunk target', chunks[j]? = some chunk →
          ((chunks.take j).map .ok).foldlM send target = some target' → send target' (.ok chunk) = none →
          run deflate b size (recorded send) (target, []) =
            ((target', (chunks.take j).map .ok), .aborted (chunks.take j).flatten.length)) ∧
        ∀ pieces, pieces.flatten = archive →
          fed (max size 1) send target pieces = run deflate b size send target := by
  have hsize : 0 < max size 1 := by omega
  refine ⟨cut (max size 1) archive, isCut_cut hsize archive, fun send target => ⟨?_, ?_, ?_⟩⟩
  · intro target' haccepted
    exact run_of_accepted h size (foldlM_recorded haccepted [])
  · intro j chunk target' hchunk haccepted hrefused
    obtain ⟨hj, rfl⟩ := List.getElem?_eq_some_iff.mp hchunk
    have hcut : cut (max size 1) archive = (cut (max size 1) archive).take j ++
        (cut (max size 1) archive)[j] :: (cut (max size 1) archive).drop (j + 1) := by
      rw [← List.drop_eq_getElem_cons hj, List.take_append_drop]
    refine run_of_refused h size hcut (foldlM_recorded haccepted []) ?_
    simp [recorded, hrefused]
  · intro pieces hpieces
    subst hpieces
    rw [fed_eq_sendAll hsize, run_eq_sendAll h]

open Deflate in
theorem pack_one_file : ∃ archive,
    Archive.pack deflateFixed ⟨[("a.txt", [104, 105])]⟩ = .ok archive ∧ archive.length = 112 := by
  have hlength : (match Archive.pack deflateFixed ⟨[("a.txt", [104, 105])]⟩ with
      | .ok archive => archive.length
      | .error _ => 0) = 112 := by decide +kernel
  cases h : Archive.pack deflateFixed ⟨[("a.txt", [104, 105])]⟩ with
  | error fault => simp [h] at hlength
  | ok archive => exact ⟨archive, rfl, by simpa [h] using hlength⟩

open Deflate in
theorem run_sends_chunks_of_one_file : ∃ archive chunks,
    Archive.pack deflateFixed ⟨[("a.txt", [104, 105])]⟩ = .ok archive ∧ archive.length = 112 ∧
    IsCut 40 archive chunks ∧ chunks.map List.length = [40, 40, 32] ∧
    run deflateFixed ⟨[("a.txt", [104, 105])]⟩ 40 (recorded fun n _ => some (n + 1)) (0, []) =
      ((3, chunks.map .ok), .completed 112) ∧
    run deflateFixed ⟨[("a.txt", [104, 105])]⟩ 40
        (recorded fun n _ => if n = 1 then none else some (n + 1)) (0, []) =
      ((1, (chunks.take 1).map .ok), .aborted 40) := by
  obtain ⟨archive, h, hpacked⟩ := pack_one_file
  obtain ⟨chunks, hcut, hruns⟩ := run_sends_chunks deflateFixed _ 40 h
  have hcount := hcut.count
  rw [hpacked] at hcount
  obtain ⟨x, y, z, rfl⟩ := List.length_eq_three.mp hcount
  have hx := hcut.full 0 x rfl (by simp)
  have hy := hcut.full 1 y rfl (by simp)
  have hz := congrArg List.length (hcut.place 2 z rfl)
  rw [List.length_take, List.length_drop, hpacked] at hz
  refine ⟨archive, _, h, hpacked, hcut, by simp [hx, hy, hz], ?_, ?_⟩
  · rw [← hpacked]
    exact (hruns (fun n _ => some (n + 1)) 0).1 3 rfl
  · have hrefused := (hruns (fun n _ => if n = 1 then none else some (n + 1)) 0).2.1 1 y 1 rfl rfl rfl
    simpa [hx] using hrefused

end Worker

end Storefront.Delivery
