import Storefront.Archive.Packing
/-!
Packing with any sink. The pieces of an archive depend on its bundle only, so packing gives them to the
sink one after another, up to the first one that the sink refuses.
-/

namespace Storefront.Archive
variable {σ : Type} {deflate : List UInt8 → List UInt8}

def feed (sink : Sink σ) (s : σ) : List (List UInt8) → σ × Except PackFault Unit
  | [] => (s, .ok ())
  | piece :: r =>
    match sink s piece with
    | (s, .ok ()) => feed sink s r
    | (s, .error fault) => (s, .error fault)

def given (piece : List UInt8) : List (List UInt8) := if piece = [] then [] else [piece]

theorem nil_not_mem_given (piece : List UInt8) : [] ∉ given piece := by
  by_cases h : piece = [] <;> simp [given, h, eq_comm]

theorem flatten_given (piece : List UInt8) : (given piece).flatten = piece := by
  by_cases h : piece = [] <;> simp [given, h]

theorem give_eq_feed (sink : Sink σ) (s : σ) (piece : List UInt8) :
    give sink s piece = feed sink s (given piece) := by
  by_cases h : piece = []
  · simp [give, given, feed, h]
  · obtain ⟨t, answer, hs⟩ : ∃ t answer, sink s piece = (t, answer) := ⟨_, _, rfl⟩
    cases answer <;> simp [give, given, feed, h, hs]

theorem feed_append (sink : Sink σ) (s : σ) (l m : List (List UInt8)) :
    feed sink s (l ++ m) =
      match feed sink s l with
      | (s, .ok ()) => feed sink s m
      | (s, .error fault) => (s, .error fault) := by
  induction l generalizing s with
  | nil => rfl
  | cons piece r ih =>
    obtain ⟨t, answer, hs⟩ : ∃ t answer, sink s piece = (t, answer) := ⟨_, _, rfl⟩
    cases answer with
    | error fault => simp [feed, hs]
    | ok u => simp [feed, hs, ih]

theorem feed_keep (acc pieces : List (List UInt8)) :
    feed keep acc pieces = (pieces.reverse ++ acc, .ok ()) := by
  induction pieces generalizing acc with
  | nil => rfl
  | cons piece r ih => simp [feed, keep, ih]

/-- What packing answers once a sink was fed: `answer`, unless the sink refused a piece. -/
def answered (answer : Except PackFault Nat) (r : σ × Except PackFault Unit) : σ × Except PackFault Nat :=
  (r.1, r.2.bind fun _ => answer)

/-- The same pieces go to every sink, and packing ends alike unless one is refused. -/
theorem packFiles_eq_feed {files : Entries (List UInt8)} {p : Packer} {count : Nat}
    {acc kept : List (List UInt8)} {answer : Except PackFault Nat}
    (h : packFiles deflate keep p count acc files = (kept, answer)) :
    ∃ pieces, kept = pieces.reverse ++ acc ∧ [] ∉ pieces ∧
      (∀ n, answer = .ok n → n = count + pieces.flatten.length) ∧ answer ≠ .error .aborted ∧
      ∀ {σ : Type} (sink : Sink σ) (s : σ),
        packFiles deflate sink p count s files = answered answer (feed sink s pieces) := by
  -- Packing looks at a sink only to stop, so a run that keeps every piece fixes what any sink is given. The
  -- cases follow where a run can end: at the directory, at a file's name, at its content.
  induction files generalizing p count acc with
  | nil =>
    cases hrest : p.finish with
    | error fault =>
      simp only [packFiles, hrest, Prod.mk.injEq] at h
      obtain ⟨rfl, rfl⟩ := h
      refine ⟨[], rfl, by simp, by simp, by simp, fun sink s => ?_⟩
      simp [packFiles, hrest, feed, answered, Except.bind]
    | ok rest =>
      simp only [packFiles, hrest, give_eq_feed, feed_keep, Prod.mk.injEq] at h
      obtain ⟨rfl, rfl⟩ := h
      refine ⟨given rest, rfl, nil_not_mem_given rest, ?_, by simp, fun sink s => ?_⟩
      · intro n hn
        cases hn
        rw [flatten_given]
      · obtain ⟨t, fed, hs⟩ : ∃ t fed, feed sink s (given rest) = (t, fed) := ⟨_, _, rfl⟩
        cases fed <;> simp [packFiles, hrest, give_eq_feed, hs, answered, Except.bind]
  | cons file files ih =>
    obtain ⟨path, content⟩ := file
    cases hentered : p.enter (Utf8.ofString path) with
    | error fault =>
      simp only [packFiles, hentered, Prod.mk.injEq] at h
      obtain ⟨rfl, rfl⟩ := h
      exact ⟨[], rfl, by simp, by simp, by simp,
        fun sink s => by simp [packFiles, hentered, feed, answered, Except.bind]⟩
    | ok entered =>
      obtain ⟨ready, q, hq⟩ :
        ∃ ready q, entered.release (Utf8.ofString path) p.window.size = (ready, q) := ⟨_, _, rfl⟩
      cases hfilled : q.fill deflate content with
      | error fault =>
        simp only [packFiles, hentered, hq, give_eq_feed, feed_keep, hfilled, Prod.mk.injEq] at h
        obtain ⟨rfl, rfl⟩ := h
        refine ⟨given ready, rfl, nil_not_mem_given ready, by simp, by simp, fun sink s => ?_⟩
        obtain ⟨t, fed, hs⟩ : ∃ t fed, feed sink s (given ready) = (t, fed) := ⟨_, _, rfl⟩
        cases fed <;> simp [packFiles, hentered, hq, give_eq_feed, hs, hfilled, answered, Except.bind]
      | ok filled =>
        simp only [packFiles, hentered, hq, give_eq_feed, feed_keep, hfilled] at h
        obtain ⟨pieces, rfl, hne, hcount, haborted, hsink⟩ := ih h
        refine ⟨given ready ++ pieces, by simp, ?_, ?_, haborted, fun sink s => ?_⟩
        · simp [nil_not_mem_given, hne]
        · intro n hn
          simp [hcount n hn, flatten_given, Nat.add_assoc]
        · rw [feed_append]
          obtain ⟨t, fed, hs⟩ : ∃ t fed, feed sink s (given ready) = (t, fed) := ⟨_, _, rfl⟩
          cases fed with
          | error fault => simp [packFiles, hentered, hq, give_eq_feed, hs, answered, Except.bind]
          | ok u => simp [packFiles, hentered, hq, give_eq_feed, hs, hfilled, hsink]

theorem packInto_eq_feed {b : Bundle} {archive : List UInt8} (h : pack deflate b = .ok archive) :
    ∃ pieces, Archive.pieces deflate b = .ok pieces ∧ pieces.flatten = archive ∧ [] ∉ pieces ∧
      ∀ {σ : Type} (sink : Sink σ) (s : σ),
        packInto deflate b sink s = answered (.ok archive.length) (feed sink s pieces) := by
  obtain ⟨kept, answer, hp⟩ : ∃ kept answer, packInto deflate b keep [] = (kept, answer) := ⟨_, _, rfl⟩
  obtain ⟨ps, rfl, hne, hcount, -, hsink⟩ := packFiles_eq_feed hp
  cases answer with
  | error fault => simp [pack, Archive.pieces, hp, Except.map] at h
  | ok n =>
    have hpieces : Archive.pieces deflate b = .ok ps := by simp [Archive.pieces, hp]
    rw [pack, hpieces] at h
    cases h
    refine ⟨ps, hpieces, rfl, hne, fun sink s => ?_⟩
    rw [packInto, hsink, hcount n rfl, Nat.zero_add]

/-- A packing that fails gives every sink the same pieces before. -/
theorem packInto_eq_feed_of_fault {b : Bundle} {fault : PackFault} (h : pack deflate b = .error fault) :
    fault ≠ .aborted ∧ ∃ pieces, ∀ {σ : Type} (sink : Sink σ) (s : σ),
      packInto deflate b sink s = answered (.error fault) (feed sink s pieces) := by
  obtain ⟨kept, answer, hp⟩ : ∃ kept answer, packInto deflate b keep [] = (kept, answer) := ⟨_, _, rfl⟩
  obtain ⟨ps, -, -, -, haborted, hsink⟩ := packFiles_eq_feed hp
  cases answer with
  | ok n => simp [pack, Archive.pieces, hp, Except.map] at h
  | error f =>
    simp only [pack, Archive.pieces, hp, Except.map, Except.error.injEq] at h
    subst h
    exact ⟨fun hfault => haborted (congrArg _ hfault), ps, hsink⟩

end Storefront.Archive
