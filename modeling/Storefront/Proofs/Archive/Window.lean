import Mathlib.Algebra.Group.Int.Defs
import Storefront.Archive.Window
/-!
A window stands for a file that is held whole: the bytes taken from it and those still in it make up
that file after any writes and seeks, and what is taken stays as it is.
-/

namespace Storefront

structure PlainFile where
  content : List UInt8
  pos : Nat
  deriving DecidableEq, Repr

namespace PlainFile

def empty : PlainFile := ⟨[], 0⟩

/-- The byte at place `j` once `data` is written at the current place; behind the end there are zeros. -/
def byteAfter (f : PlainFile) (data : List UInt8) (j : Nat) : UInt8 :=
  if f.pos ≤ j ∧ j < f.pos + data.length then data.getD (j - f.pos) 0 else f.content.getD j 0

def write (f : PlainFile) (data : List UInt8) : PlainFile where
  content := (List.range (max f.content.length (f.pos + data.length))).map (f.byteAfter data)
  pos := f.pos + data.length

def place (f : PlainFile) : Window.Target → Int
  | .start offset => offset
  | .fromEnd delta => f.content.length + delta
  | .current delta => f.pos + delta

def seek (f : PlainFile) (t : Window.Target) : PlainFile := { f with pos := (f.place t).toNat }

end PlainFile

namespace Window

inductive Operation where
  | write (data : List UInt8)
  | seek (t : Target)
  | takeUntil (offset : Nat)
  | takeAll
  deriving DecidableEq, Repr

def perform (w : Window) : Operation → Except Fault (List UInt8 × Window)
  | .write data => (w.write data).map ([], ·)
  | .seek t => (w.seek t).map ([], ·)
  | .takeUntil offset => .ok (w.takeUntil offset)
  | .takeAll => .ok w.takeAll

structure Paired where
  window : Window
  taken : List UInt8
  file : PlainFile
  deriving DecidableEq, Repr

namespace Paired

def start : Paired := ⟨.empty, [], .empty⟩

def step (s : Paired) (op : Operation) : Paired :=
  match s.window.perform op with
  | .error _ => s
  | .ok (bytes, window) => ⟨window, s.taken ++ bytes, match op with
    | .write data => s.file.write data
    | .seek t => s.file.seek t
    | .takeUntil _ | .takeAll => s.file⟩

def run (s : Paired) (ops : List Operation) : Paired := ops.foldl step s

/-- The taken bytes and the window are the file, split where the window begins. -/
structure Agrees (s : Paired) : Prop where
  content : s.taken ++ s.window.buf = s.file.content
  pos : s.window.pos = s.file.pos
  base : s.window.base = s.taken.length

end Paired

/-! Writing into the bytes behind a taken part -/

theorem overwrite_append (front buf : List UInt8) (i : Nat) (data : List UInt8) :
    overwrite (front ++ buf) (front.length + i) data = front ++ overwrite buf i data := by
  have hgap : front.length + i - (front ++ buf).length = i - buf.length := by
    rw [List.length_append]
    omega
  rw [overwrite, overwrite, hgap, List.append_assoc front, List.take_length_add_append, Nat.add_assoc,
    List.drop_length_add_append]
  simp only [List.append_assoc]

theorem getElem?_overwrite (buf data : List UInt8) (i j : Nat) :
    (overwrite buf i data)[j]? =
      if j < i then some (buf.getD j 0) else if j < i + data.length then data[j - i]? else buf[j]? := by
  have hfront : ((buf ++ List.replicate (i - buf.length) 0).take i).length = i := by
    rw [List.length_take, List.length_append, List.length_replicate]
    omega
  by_cases hj : j < i
  · have hlt : j < ((buf ++ List.replicate (i - buf.length) 0).take i ++ data).length := by
      rw [List.length_append, hfront]
      omega
    rw [overwrite, List.getElem?_append_left hlt, List.getElem?_append_left (by omega),
      List.getElem?_take_of_lt hj, if_pos hj]
    by_cases hbuf : j < buf.length
    · simp [List.getElem?_append_left hbuf, hbuf]
    · have hgap : j - buf.length < i - buf.length := by omega
      simp [List.getElem?_append_right (Nat.le_of_not_lt hbuf), hbuf, hgap]
  · rw [overwrite, List.append_assoc, List.getElem?_append_right (by omega), hfront, if_neg hj]
    by_cases hdata : j < i + data.length
    · rw [List.getElem?_append_left (by omega), if_pos hdata]
    · rw [List.getElem?_append_right (by omega), if_neg hdata, List.getElem?_drop]
      congr 1
      omega

theorem content_write (f : PlainFile) (data : List UInt8) :
    (f.write data).content = overwrite f.content f.pos data := by
  apply List.ext_getElem?
  intro j
  rw [getElem?_overwrite]
  by_cases hj : j < max f.content.length (f.pos + data.length)
  · have hread : (f.write data).content[j]? = some (f.byteAfter data j) := by
      simp only [PlainFile.write, List.getElem?_map, List.getElem?_range hj, Option.map_some]
    rw [hread, PlainFile.byteAfter]
    by_cases hpos : j < f.pos
    · rw [if_neg (by omega), if_pos hpos]
    · by_cases hdata : j < f.pos + data.length
      · have hlt : j - f.pos < data.length := by omega
        simp [hpos, hdata, hlt, Nat.le_of_not_lt hpos]
      · have hlt : j < f.content.length := by omega
        simp [hpos, hdata, hlt]
  · have hread : (f.write data).content[j]? = none := by
      rw [List.getElem?_eq_none_iff, PlainFile.write, List.length_map, List.length_range]
      omega
    have hcontent : f.content[j]? = none := by
      rw [List.getElem?_eq_none_iff]
      omega
    rw [hread, if_neg (by omega), if_neg (by omega), hcontent]

/-! What each operation does -/

theorem write_eq_error_iff {w : Window} {data : List UInt8} :
    (∃ fault, w.write data = .error fault) ↔ w.pos < w.base := by
  by_cases h : w.pos < w.base <;> simp [write, h]

theorem seek_eq_error_iff {w : Window} {t : Target} :
    (∃ fault, w.seek t = .error fault) ↔ w.place t < w.base ∨ 2 ^ 64 ≤ w.place t := by
  by_cases h : w.base ≤ w.place t ∧ w.place t < 0x10000000000000000
  · simp only [seek, h, and_self, if_true, reduceCtorEq, exists_false, false_iff]
    omega
  · simp only [seek, h, if_false, Except.error.injEq, exists_eq', true_iff]
    omega

theorem takeUntil_append (w : Window) (offset : Nat) :
    (w.takeUntil offset).1 ++ (w.takeUntil offset).2.buf = w.buf := List.take_append_drop _ _

theorem base_takeUntil (w : Window) (offset : Nat) :
    (w.takeUntil offset).2.base = w.base + (w.takeUntil offset).1.length := by
  simp only [takeUntil, List.length_take]
  omega

theorem base_takeUntil_eq_max (w : Window) (offset : Nat) :
    (w.takeUntil offset).2.base = max w.base (min offset w.size) := by
  simp only [takeUntil, size]
  omega

namespace Paired
variable {s : Paired}

theorem agrees_start : start.Agrees := ⟨rfl, rfl, rfl⟩

theorem Agrees.size (h : s.Agrees) : s.window.size = s.file.content.length := by
  rw [Window.size, h.base, ← h.content, List.length_append]

theorem Agrees.place (h : s.Agrees) (t : Target) : s.window.place t = s.file.place t := by
  cases t with
  | start offset => rfl
  | fromEnd delta => rw [Window.place, h.size, PlainFile.place]
  | current delta => rw [Window.place, h.pos, PlainFile.place]

theorem Agrees.takeUntil (h : s.Agrees) (offset : Nat) :
    Agrees ⟨(s.window.takeUntil offset).2, s.taken ++ (s.window.takeUntil offset).1, s.file⟩ where
  content := by rw [List.append_assoc, takeUntil_append, h.content]
  pos := h.pos
  base := by rw [base_takeUntil, h.base, List.length_append]

theorem step_of_error {op : Operation} {fault : Fault} (h : s.window.perform op = .error fault) :
    s.step op = s := by
  simp only [step, h]

theorem Agrees.step (h : s.Agrees) (op : Operation) : (s.step op).Agrees := by
  cases op with
  | write data =>
    by_cases hpos : s.window.pos < s.window.base
    · have hrefused : s.window.perform (.write data) = .error .write := by
        simp [perform, Window.write, hpos, Except.map]
      rwa [step_of_error hrefused]
    · have hplace : s.file.pos = s.taken.length + (s.window.pos - s.window.base) := by
        rw [← h.pos, ← h.base]
        omega
      have hcontent : s.taken ++ overwrite s.window.buf (s.window.pos - s.window.base) data =
          (s.file.write data).content := by
        rw [content_write, ← h.content, hplace, overwrite_append]
      have hstep : s.step (.write data) = ⟨⟨s.window.base,
          overwrite s.window.buf (s.window.pos - s.window.base) data, s.window.pos + data.length⟩,
          s.taken, s.file.write data⟩ := by
        simp [Paired.step, perform, Window.write, hpos, Except.map]
      rw [hstep]
      exact ⟨hcontent, by rw [h.pos]; rfl, h.base⟩
  | seek t =>
    by_cases ht : s.window.base ≤ s.window.place t ∧ s.window.place t < 0x10000000000000000
    · have hstep : s.step (.seek t) =
          ⟨{ s.window with pos := (s.window.place t).toNat }, s.taken, s.file.seek t⟩ := by
        simp [Paired.step, perform, Window.seek, ht, Except.map]
      rw [hstep]
      exact ⟨h.content, by rw [h.place]; rfl, h.base⟩
    · have hrefused : s.window.perform (.seek t) = .error .seek := by
        simp [perform, Window.seek, ht, Except.map]
      rwa [step_of_error hrefused]
  | takeUntil offset => exact h.takeUntil offset
  | takeAll => exact h.takeUntil s.window.size

theorem run_append (s : Paired) (before after : List Operation) :
    s.run (before ++ after) = (s.run before).run after := List.foldl_append

theorem Agrees.run (h : s.Agrees) (ops : List Operation) : (s.run ops).Agrees := by
  induction ops generalizing s with
  | nil => exact h
  | cons op ops ih => exact ih (h.step op)

theorem taken_prefix_step (s : Paired) (op : Operation) : s.taken <+: (s.step op).taken := by
  unfold step
  split
  · exact List.prefix_rfl
  · exact List.prefix_append _ _

theorem taken_prefix_run (s : Paired) (ops : List Operation) : s.taken <+: (s.run ops).taken := by
  induction ops generalizing s with
  | nil => exact List.prefix_rfl
  | cons op ops ih => exact (taken_prefix_step s op).trans (ih (s.step op))

/-- However a window is written, sought and drained, the bytes taken and those left in it are a plain
file after the writes and seeks that were not refused. Refused is what reaches before the window or
past the last place, and it changes nothing; taken bytes are those of the file for good. -/
theorem window_refines_file (ops : List Operation) :
    let s := start.run ops
    s.taken ++ s.window.buf = s.file.content ∧ s.window.pos = s.file.pos ∧
    s.window.base = s.taken.length ∧ s.window.size = s.file.content.length ∧
    (∀ data, (∃ fault, s.window.perform (.write data) = .error fault) ↔ s.window.pos < s.window.base) ∧
    (∀ t, (∃ fault, s.window.perform (.seek t) = .error fault) ↔
      s.file.place t < s.window.base ∨ 2 ^ 64 ≤ s.file.place t) ∧
    (∀ op fault, s.window.perform op = .error fault → start.run (ops ++ [op]) = s) ∧
    (∀ offset, (start.run (ops ++ [.takeUntil offset])).window.base =
      max s.window.base (min offset s.window.size)) ∧
    (start.run (ops ++ [.takeAll])).window.base = s.window.size ∧
    ∀ later, s.taken <+: (start.run (ops ++ later)).taken ∧
      s.taken <+: (start.run (ops ++ later)).file.content := by
  intro s
  -- Every part is a fact about one operation in a state that agrees with its file.
  have h : s.Agrees := agrees_start.run ops
  have hmap {r : Except Fault Window} : (∃ fault, r.map (([] : List UInt8), ·) = .error fault) ↔
      ∃ fault, r = .error fault := by
    cases r <;> simp [Except.map]
  refine ⟨h.content, h.pos, h.base, h.size, fun data => ?_, fun t => ?_, fun op fault hop => ?_,
    fun offset => ?_, ?_, fun later => ?_⟩
  · rw [perform, hmap, write_eq_error_iff]
  · rw [perform, hmap, seek_eq_error_iff, h.place]
  · rw [run_append]
    exact step_of_error hop
  · rw [run_append]
    exact base_takeUntil_eq_max s.window offset
  · rw [run_append]
    have hbase : (s.run [.takeAll]).window.base = max s.window.base (min s.window.size s.window.size) :=
      base_takeUntil_eq_max s.window s.window.size
    rw [hbase, Window.size]
    omega
  · rw [run_append]
    have htaken := taken_prefix_run s later
    refine ⟨htaken, htaken.trans ?_⟩
    rw [← (h.run later).content]
    exact List.prefix_append _ _

example : (start.run [.write [1, 2, 3], .takeUntil 2, .seek (.start 1), .seek (.start 4),
    .write [5]]).window = ⟨2, [3, 0, 5], 5⟩ := by decide

end Paired

end Window

end Storefront
