import Storefront.Proofs.Archive.Deflate
import Storefront.Proofs.Delivery.Ahead
import Storefront.Proofs.Delivery.Worker
import Storefront.Proofs.Theme.Export
import Storefront.Proofs.Theme.Size
/-!
What a consumer gets from a stream, whatever the order in which the worker and the calls of the consumer
take their steps.
-/

namespace Storefront.Delivery

inductive Event where
  | work
  | next (answer : Option Chunk)
  | read (n : Nat) (answer : Except String (List UInt8))

namespace Event

def bytes : Event → List UInt8
  | .next (some (.ok chunk)) => chunk
  | .read _ (.ok bytes) => bytes
  | _ => []

def ReportsEnd : Event → Prop
  | .work => False
  | .next answer => answer = none
  | .read n answer => n ≠ 0 ∧ answer = .ok []

/-- A call after `taken` is answered with bytes of the chunk that comes next, and with the end only
behind the whole archive. -/
def Fits (archive : List UInt8) (size : Nat) (taken : List UInt8) : Event → Prop
  | .work => True
  | .next none => taken = archive
  | .next (some (.ok chunk)) => chunk ≠ [] ∧ chunk = unread archive size taken.length
  | .read n (.ok bytes) =>
    bytes = (unread archive size taken.length).take n ∧
      bytes.length = min n (unread archive size taken.length).length ∧
      (bytes = [] → n = 0 ∨ taken = archive)
  | _ => False

end Event

def taken (events : List Event) : List UInt8 := events.flatMap Event.bytes

/-- One step of the worker, or one call that need not wait. -/
inductive Step : Delivery → Event → Delivery → Prop
  | work {s s' : Delivery} (h : s.work? = some s') : Step s .work s'
  | next {s s' : Delivery} {answer : Option Chunk} (h : s.next? = some (answer, s')) :
    Step s (.next answer) s'
  | read {s s' : Delivery} {n : Nat} {answer : Except String (List UInt8)}
    (h : s.read? n = some (answer, s')) : Step s (.read n answer) s'

inductive Run : Delivery → List Event → Delivery → Prop
  | nil (s : Delivery) : Run s [] s
  | cons {s t s' : Delivery} {e : Event} {events : List Event} (hstep : Step s e t)
    (hrun : Run t events s') : Run s (e :: events) s'

theorem Run.split {s s' : Delivery} {before after : List Event} (h : Run s (before ++ after) s') :
    ∃ t, Run s before t ∧ Run t after s' := by
  induction before generalizing s with
  | nil => exact ⟨s, .nil s, h⟩
  | cons e before ih =>
    obtain _ | ⟨hstep, hrun⟩ := h
    obtain ⟨t, hbefore, hafter⟩ := ih hrun
    exact ⟨t, .cons hstep hbefore, hafter⟩

theorem Run.append {s t s' : Delivery} {before after : List Event} (hbefore : Run s before t)
    (hafter : Run t after s') : Run s (before ++ after) s' := by
  induction hbefore with
  | nil s => exact hafter
  | cons hstep hrun ih => exact .cons hstep (ih hafter)

theorem taken_append (before after : List Event) : taken (before ++ after) = taken before ++ taken after := by
  simp [taken]

theorem taken_replicate_work (k : Nat) : taken (List.replicate k .work) = [] := by
  simp [taken, Event.bytes]

theorem run_workFor (n : Nat) (s : Delivery) : ∃ k ≤ n, Run s (List.replicate k .work) (s.workFor n) := by
  induction n generalizing s with
  | zero => exact ⟨0, le_rfl, .nil s⟩
  | succ n ih =>
    cases hs : s.work? with
    | none => exact ⟨0, Nat.zero_le _, by simpa [workFor, hs] using Run.nil s⟩
    | some t =>
      obtain ⟨k, hk, hrun⟩ := ih t
      refine ⟨k + 1, by omega, ?_⟩
      rw [List.replicate_succ]
      simpa [workFor, hs] using Run.cons (.work hs) hrun

theorem run_ready (s : Delivery) : ∃ k ≤ 2, Run s (List.replicate k .work) s.ready := by
  by_cases hs : s.next?.isSome = true
  · exact ⟨0, by omega, by simpa [ready, hs] using Run.nil s⟩
  · simpa [ready, hs] using run_workFor 2 s

/-! What one step does -/

variable {archive : List UInt8} {size pos : Nat} {s s' : Delivery} {e : Event}

theorem unread_prefix_drop : unread archive size pos <+: archive.drop pos := List.take_prefix _ _

theorem Serves.step (hsize : 0 < size) (h : Serves archive size pos s) (hs : Step s e s') :
    Serves archive size (pos + e.bytes.length) s' ∧ e.bytes <+: archive.drop pos := by
  cases hs with
  | work hs => exact ⟨h.work hs, List.nil_prefix⟩
  | next hs =>
    obtain ⟨rfl, _, h'⟩ | ⟨rfl, _, h'⟩ := h.next hsize hs
    · exact ⟨h', List.nil_prefix⟩
    · exact ⟨h', unread_prefix_drop⟩
  | read hs =>
    obtain ⟨rfl, h'⟩ := h.read hsize hs
    exact ⟨h', (List.take_prefix _ _).trans unread_prefix_drop⟩

theorem Serves.run (hsize : 0 < size) (h : Serves archive size pos s) {events : List Event}
    (hrun : Run s events s') :
    Serves archive size (pos + (taken events).length) s' ∧ taken events <+: archive.drop pos := by
  induction hrun generalizing pos with
  | nil s => exact ⟨h, List.nil_prefix⟩
  | @cons s t s' e events hstep hrun ih =>
    obtain ⟨ht, hbytes⟩ := h.step hsize hstep
    obtain ⟨hs', hrest⟩ := ih ht
    have htaken : taken (e :: events) = e.bytes ++ taken events := rfl
    rw [htaken, List.length_append, ← Nat.add_assoc]
    refine ⟨hs', ?_⟩
    -- the bytes of the first step come off the front of what is left for the later ones
    obtain ⟨rest, hrest'⟩ := hbytes
    rw [← List.drop_drop, ← hrest', List.drop_left] at hrest
    rw [← hrest', List.prefix_append_right_inj]
    exact hrest

theorem Serves.fits (hsize : 0 < size) {taken : List UInt8} (htaken : taken <+: archive)
    (h : Serves archive size taken.length s) (hs : Step s e s') : e.Fits archive size taken := by
  have hwhole (hle : archive.length ≤ taken.length) : taken = archive := htaken.eq_of_length_le hle
  cases hs with
  | work hs => trivial
  | next hs =>
    obtain ⟨rfl, hpos, _⟩ | ⟨rfl, hpos, _⟩ := h.next hsize hs
    · exact hwhole hpos
    · refine ⟨?_, rfl⟩
      rw [Ne, unread_eq_nil_iff hsize]
      omega
  | read hs =>
    obtain ⟨rfl, _⟩ := h.read hsize hs
    refine ⟨rfl, List.length_take, fun hnil => ?_⟩
    rcases List.take_eq_nil_iff.mp hnil with hn | hunread
    · exact .inl hn
    · exact .inr (hwhole ((unread_eq_nil_iff hsize).mp hunread))

/-- Whatever was done before, the consumer can still take all that is left. -/
theorem Serves.completes (hsize : 0 < size) (h : Serves archive size pos s) :
    ∃ events s', Run s events s' ∧ taken events = archive.drop pos := by
  induction hn : archive.length - pos using Nat.strong_induction_on generalizing pos s with
  | _ n ih =>
    by_cases hpos : pos < archive.length
    · obtain ⟨k, _, hwork⟩ := run_ready s
      have hready := (h.run hsize hwork).1
      rw [taken_replicate_work, List.length_nil, Nat.add_zero] at hready
      obtain ⟨⟨answer, t⟩, hnext⟩ := Option.isSome_iff_exists.mp (h.ready_answers hsize).1
      obtain ⟨_, hle, _⟩ | ⟨rfl, _, ht⟩ := hready.next hsize hnext
      · omega
      · have hne : unread archive size pos ≠ [] := by
          rw [Ne, unread_eq_nil_iff hsize]
          omega
        have hlen := List.length_pos_iff.mpr hne
        obtain ⟨events, s', hrun, htaken⟩ := ih _ (by omega) ht rfl
        refine ⟨List.replicate k .work ++ .next (some (.ok (unread archive size pos))) :: events, s',
          hwork.append (.cons (.next hnext) hrun), ?_⟩
        have hcons : taken (.next (some (.ok (unread archive size pos))) :: events) =
          unread archive size pos ++ taken events := rfl
        obtain ⟨rest, hrest⟩ := @unread_prefix_drop archive size pos
        rw [taken_append, taken_replicate_work, hcons, htaken, List.nil_append, ← List.drop_drop, ← hrest,
          List.drop_left]
    · exact ⟨[], s, .nil s, (List.drop_eq_nil_of_le (by omega)).symm⟩

/-! What is collected -/

theorem Runs.next (h : Runs s) (hread : s.pending.length ≤ s.offset) :
    (s.queue ++ s.unsent = [] ∧ ∃ t, s.next = (none, t)) ∨
      ∃ item t, s.next = (some item, t) ∧ s.queue ++ s.unsent = item :: (t.queue ++ t.unsent) ∧
        Runs t ∧ t.pending.length ≤ t.offset := by
  obtain ⟨hready, hpending, hoffset, hitems⟩ := h.ready
  have hnone : ¬ s.ready.offset < s.ready.pending.length := by
    rw [hpending, hoffset]
    omega
  rw [← hitems]
  cases hq : s.ready.queue with
  | cons item queue =>
    refine .inr ⟨item, { s.ready with queue }, ?_, rfl,
      ⟨hready.unsent, hready.capacity, hready.cancelled, hready.closed⟩, Nat.le_of_not_lt hnone⟩
    simp [Delivery.next, next?, hnone, receive?, hq]
  | nil =>
    have hended : s.ready.outcome ≠ none := by simpa [hnone, hq] using h.ready_cases
    refine .inl ⟨by rw [hready.unsent hended]; rfl, s.ready, ?_⟩
    simp [Delivery.next, next?, hnone, receive?, hq, isEnded_iff.mpr (.inr hended)]

theorem Runs.collectUpTo (h : Runs s) (hread : s.pending.length ≤ s.offset) {fuel : Nat}
    (hfuel : (s.queue ++ s.unsent).length < fuel) :
    (s.collectUpTo fuel).1 = (s.queue ++ s.unsent).mapM id := by
  induction fuel generalizing s with
  | zero => exact absurd hfuel (Nat.not_lt_zero _)
  | succ fuel ih =>
    obtain ⟨hitems, t, hnext⟩ | ⟨item, t, hnext, hitems, ht, hread'⟩ := h.next hread
    · rw [Delivery.collectUpTo, hnext, hitems]
      rfl
    · rw [hitems, List.length_cons] at hfuel
      have hrest := ih ht hread' (Nat.lt_of_succ_lt_succ hfuel)
      rw [Delivery.collectUpTo, hnext, hitems]
      cases item with
      | error message => rfl
      | ok chunk =>
        simp only [hrest, List.mapM_cons, id]
        rfl

theorem mapM_id_map_ok (chunks : List (List UInt8)) :
    (chunks.map Except.ok).mapM id = (.ok chunks : Except String _) := by
  induction chunks with
  | nil => rfl
  | cons chunk chunks ih => simp [ih, bind, Except.bind, pure, Except.pure]

/-- What is collected is the archive, or else the cause why it cannot be packed. -/
theorem collect_ofBundle (deflate : List UInt8 → List UInt8) (b : Bundle) (c : Chunking) :
    (ofBundle deflate b c).collect.1.map List.flatten = (Archive.pack deflate b).mapError (·.message) := by
  have hruns := runs_ofBundle deflate b c
  have hitems : (ofBundle deflate b c).queue ++ (ofBundle deflate b c).unsent =
      (Worker.chunks deflate b c.size).1 := rfl
  rw [collect, hruns.collectUpTo (Nat.le_refl 0) (by rw [List.length_append]; omega), hitems]
  cases h : Archive.pack deflate b with
  | ok archive =>
    have hsize : 0 < max c.size 1 := by omega
    rw [Worker.chunks_eq_cut h, mapM_id_map_ok]
    simp only [Except.map, Except.mapError, flatten_cut hsize]
  | error fault =>
    obtain ⟨packed, hchunks⟩ := Worker.chunks_of_fault h c.size
    rw [hchunks, List.mapM_append, mapM_id_map_ok]
    rfl

/-! The end -/

theorem Step.ends (hs : Step s e s') (he : e.ReportsEnd) : Over s' := by
  cases hs with
  | work hs => exact absurd he id
  | next hs =>
    cases he
    obtain ⟨_, hanswer, _⟩ | ⟨_, item, queue, _, hanswer, _⟩ | ⟨ho, _, rfl⟩ := next?_cases hs
    · cases hanswer
    · cases hanswer
    · exact ho
  | read hs =>
    obtain ⟨hn, rfl⟩ := he
    obtain ⟨hn', _, _⟩ | ⟨_, found, t, _, hcases⟩ := read?_cases hs
    · exact absurd hn' hn
    · obtain ⟨ho, _, rfl⟩ | ⟨hlt, bytes, hanswer, hbytes, _⟩ | ⟨message, _, _, hanswer, _⟩ := hcases
      · exact ho
      · cases hanswer
        rcases List.take_eq_nil_iff.mp hbytes.symm with hn' | hdrop
        · exact absurd hn' hn
        · rw [List.drop_eq_nil_iff] at hdrop
          omega
      · cases hanswer

theorem Serves.step_over (h : Serves archive size pos s) (ho : Over s) (hs : Step s e s') :
    s' = s ∧ (e = .next none ∨ ∃ n, e = .read n (.ok [])) := by
  cases hs with
  | work hs =>
    have hrunning := (work?_cases hs).1
    rcases ho.ended with hclosed | hended
    · rw [h.closed] at hclosed
      cases hclosed
    · exact absurd hrunning hended
  | next hs =>
    rw [ho.next?] at hs
    cases hs
    exact ⟨rfl, .inl rfl⟩
  | @read _ n answer hs =>
    rw [ho.read?] at hs
    cases hs
    exact ⟨rfl, .inr ⟨n, rfl⟩⟩

theorem Serves.run_over (h : Serves archive size pos s) (ho : Over s) {events : List Event}
    (hrun : Run s events s') : s' = s ∧ ∀ e ∈ events, e = .next none ∨ ∃ n, e = .read n (.ok []) := by
  induction hrun with
  | nil s => exact ⟨rfl, by simp⟩
  | @cons s t s' e events hstep hrun ih =>
    obtain ⟨rfl, he⟩ := h.step_over ho hstep
    obtain ⟨hs', hevents⟩ := ih h ho
    exact ⟨hs', List.forall_mem_cons.mpr ⟨he, hevents⟩⟩

/-- What a consumer can rely on when the stream of `archive` is in the state `s` after `events`: it was
given bytes from the front of the archive, every call the next ones, the end only behind them all and
from then on always; no call waits longer than for two steps of the worker, and the rest can be taken. -/
structure HandsOut (archive : List UInt8) (size : Nat) (events : List Event) (s : Delivery) : Prop where
  front : taken events <+: archive
  answers : ∀ before e after, events = before ++ e :: after → e.Fits archive size (taken before)
  ends : ∀ before e after, events = before ++ e :: after → e.ReportsEnd →
    (∀ f ∈ after, f = .next none ∨ ∃ n, f = .read n (.ok [])) ∧
      s.next? = some (none, s) ∧ ∀ n, s.read? n = some (.ok [], s)
  waits : ∃ k ≤ 2, Run s (List.replicate k .work) s.ready ∧
    s.ready.next?.isSome = true ∧ ∀ n, (s.ready.read? n).isSome = true
  completes : ∃ later s', Run s later s' ∧ taken events ++ taken later = archive

/-- The stream of an exported page hands out the page's archive, in chunks of at least one byte. -/
theorem run_hands_out_archive {deflate : List UInt8 → List UInt8} {c : Catalog} {cfg : Config}
    {stamp : Stamp} {p : Page} {receipt : Receipt} {archive : List UInt8}
    (h : Theme.archiveOf deflate c cfg.about stamp p = .ok (receipt, archive)) :
    ∃ s₀, Theme.streamOf deflate c cfg stamp p = .ok (receipt, s₀) ∧
      ∀ events s, Run s₀ events s → HandsOut archive (max cfg.chunking.size 1) events s := by
  obtain ⟨t, ht, rfl, harchive⟩ := Theme.archiveOf_eq_ok_iff.mp h
  have hsize : 0 < max cfg.chunking.size 1 := by omega
  have hstart := serves_ofBundle harchive cfg.chunking
  refine ⟨.ofBundle deflate t.bundle cfg.chunking, by simp [Theme.streamOf, ht], fun events s hrun => ?_⟩
  obtain ⟨hserves, hfront⟩ := hstart.run hsize hrun
  refine ⟨by simpa using hfront, ?_, ?_, ?_, ?_⟩
  -- A run is cut at the event in question: what holds before it is what `Serves` says of a run up to there.
  · rintro before e after rfl
    obtain ⟨m, hbefore, hafter⟩ := hrun.split
    obtain _ | ⟨hstep, _⟩ := hafter
    obtain ⟨hm, htaken⟩ := hstart.run hsize hbefore
    rw [Nat.zero_add] at hm
    exact hm.fits hsize (by simpa using htaken) hstep
  · rintro before e after rfl he
    obtain ⟨m, hbefore, hafter⟩ := hrun.split
    obtain _ | ⟨hstep, hlater⟩ := hafter
    have hm := (hstart.run hsize hbefore).1
    have hover := hstep.ends he
    obtain ⟨rfl, hcalls⟩ := (hm.step hsize hstep).1.run_over hover hlater
    exact ⟨hcalls, hover.next?, hover.read?⟩
  · obtain ⟨k, hk, hready⟩ := run_ready s
    exact ⟨k, hk, hready, hserves.ready_answers hsize⟩
  · obtain ⟨later, s', hlater, htaken⟩ := hserves.completes hsize
    obtain ⟨rest, hrest⟩ := hfront
    rw [List.drop_zero] at hrest
    refine ⟨later, s', hlater, ?_⟩
    rw [htaken, Nat.zero_add, ← hrest, List.drop_left]

open Deflate in
theorem run_hands_out_archive_of_two_blocks :
    let p : Page := ⟨[⟨"a", "header", "style-a", Stock.header.defaults⟩,
      ⟨"b", "footer", "style-b", Stock.footer.defaults⟩]⟩
    let cfg : Config := { Config.standard with chunking := ⟨7, 1⟩ }
    let events : List Event := [.work, .work, .read 3 (.ok [0x50, 0x4B, 0x03]),
      .next (some (.ok [0x04, 0x14, 0, 0])), .work, .work, .next (some (.ok [0, 0x08, 0, 0, 0, 0x21, 0]))]
    ∃ receipt archive s₀ s,
      Theme.archiveOf deflateFixed .stock cfg.about ⟨"id", "now"⟩ p = .ok (receipt, archive) ∧
      14 ≤ archive.length ∧ Theme.streamOf deflateFixed .stock cfg ⟨"id", "now"⟩ p = .ok (receipt, s₀) ∧
      Run s₀ events s ∧ HandsOut archive 7 events s := by
  intro p cfg events
  have hordinary : Theme.Ordinary .stock cfg.about p := by decide +kernel
  have hvalid : (Report.ofPage .stock p).valid = true := by decide +kernel
  obtain ⟨t, ht⟩ : ∃ t, Theme.ofPage .stock cfg.about ⟨"id", "now"⟩ p = .ok t :=
    Theme.ofPage_ok_of_valid hvalid
  obtain ⟨m, -, hfiles, -⟩ := Theme.ofPage_eq_ok ht
  -- the first two chunks are the front of a header, and no deflated byte is among them
  obtain ⟨rest, hpacked⟩ : ∃ rest, t.archive deflateFixed =
      .ok ([0x50, 0x4B, 0x03, 0x04, 0x14, 0, 0] ++ ([0, 0x08, 0, 0, 0, 0x21, 0] ++ rest)) := by
    have hplain : Archive.flags (Utf8.ofString Bundle.layoutPath) = 0 := by decide +kernel
    obtain ⟨rest, hrest⟩ :=
      @Archive.exists_part_eq deflateFixed (Bundle.layoutPath, Utf8.ofString Theme.layout) hplain
    rw [Theme.archive_eq ht length_deflateFixed_le hordinary, hfiles, Theme.filesFor, List.cons_append,
      List.cons_append, Archive.body_cons, hrest]
    simp only [List.append_assoc]
    exact ⟨_, rfl⟩
  have hcut : cut 7 ([0x50, 0x4B, 0x03, 0x04, 0x14, 0, 0] ++ ([0, 0x08, 0, 0, 0, 0x21, 0] ++ rest)) =
      [0x50, 0x4B, 0x03, 0x04, 0x14, 0, 0] :: [0, 0x08, 0, 0, 0, 0x21, 0] :: cut 7 rest := by
    rw [cut_of_le (by decide) (by simp), cut_of_le (by decide) (by simp)]
    rfl
  have harchive := Theme.archiveOf_eq_ok_iff.mpr ⟨t, ht, rfl, hpacked⟩
  obtain ⟨s₀, hstream, hruns⟩ : ∃ s₀, Theme.streamOf deflateFixed .stock cfg ⟨"id", "now"⟩ p =
      .ok (t.receipt, s₀) ∧ ∀ events s, Run s₀ events s → HandsOut _ 7 events s :=
    run_hands_out_archive harchive
  obtain rfl : .ofBundle deflateFixed t.bundle ⟨7, 1⟩ = s₀ := by simpa [Theme.streamOf, ht, cfg] using hstream
  have hstart : ofBundle deflateFixed t.bundle ⟨7, 1⟩ =
      ⟨(cut 7 _).map .ok, _, false, [], 1, 0, [], 0, false, false, none⟩ := ofBundle_eq hpacked ⟨7, 1⟩
  rw [hcut] at hstart
  obtain ⟨s, hrun⟩ : ∃ s, Run (.ofBundle deflateFixed t.bundle ⟨7, 1⟩) events s := by
    rw [hstart]
    exact ⟨_, .cons (.work rfl) (.cons (.work rfl) (.cons (.read rfl) (.cons (.next rfl)
      (.cons (.work rfl) (.cons (.work rfl) (.cons (.next rfl) (.nil _)))))))⟩
  exact ⟨_, _, _, s, harchive, by simp, hstream, hrun, hruns events s hrun⟩

end Storefront.Delivery
