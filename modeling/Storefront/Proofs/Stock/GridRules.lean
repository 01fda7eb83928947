import Mathlib.Data.List.Nodup
import Storefront.Stock.Markup
import Storefront.Stock.Sections
import Storefront.Proofs.Json.Literal
import Storefront.Proofs.Section.Sound
import Storefront.Proofs.Text.Occurrences
/-!
The rules of the grid's columns, read off its markup. There is one for every option that is a number, in the
order of the options, but its class has the number's digits; the grid itself has the class of the option's
text. The two are the same unless the text begins with a plus or with a zero too many.
-/

namespace Storefront.Stock

structure GridRule where
  name : String
  block : String
  deriving DecidableEq

def GridRule.ofLine (line : List Char) : GridRule :=
  ⟨String.ofList (line.takeWhile (· ≠ ' ')), String.ofList (line.dropWhile (· ≠ ' '))⟩

def gridMark : List Char := ['.', 'g', 'r', 'i', 'd', '-']

/-- The rules for classes that begin with `grid-` in a text, each up to the end of its line. -/
def gridRulesIn : List Char → List GridRule
  | [] => []
  | c :: r =>
    if gridMark.isPrefixOf (c :: r) then .ofLine ((r.drop 5).takeWhile (· ≠ '\n')) :: gridRulesIn r
    else gridRulesIn r

def gridRules (text : String) : List GridRule := gridRulesIn text.toList

variable {a r : List Char} {n : Nat} {v : String}

/-! Rules line by line -/

theorem gridRulesIn_cons {c : Char} (h : c ≠ '.') (r : List Char) : gridRulesIn (c :: r) = gridRulesIn r := by
  have hmark : gridMark = '.' :: "grid-".toList := by decide
  have hne : '.' ≠ c := fun heq => h heq.symm
  simp [gridRulesIn, hmark, hne]

theorem gridRulesIn_dot (h : r.head? ≠ some 'g') : gridRulesIn ('.' :: r) = gridRulesIn r := by
  have hmark : gridMark = '.' :: 'g' :: "rid-".toList := by decide
  cases r with
  | nil => rfl
  | cons c r =>
    have hne : 'g' ≠ c := fun heq => h (congrArg some heq.symm)
    rw [gridRulesIn, hmark]
    simp [hne]

theorem gridRulesIn_skip (h : '.' ∉ a) (r : List Char) : gridRulesIn (a ++ r) = gridRulesIn r := by
  induction a with
  | nil => rfl
  | cons c a ih =>
    rw [List.mem_cons, not_or] at h
    rw [List.cons_append, gridRulesIn_cons (fun heq => h.1 heq.symm), ih h.2]

theorem takeWhile_line (a r : List Char) :
    (a ++ '\n' :: r).takeWhile (· ≠ '\n') = a.takeWhile (· ≠ '\n') := by
  induction a with
  | nil => rfl
  | cons c a ih => simp only [List.cons_append, List.takeWhile_cons, ih]

theorem gridRulesIn_line (a r : List Char) :
    gridRulesIn (a ++ '\n' :: r) = gridRulesIn a ++ gridRulesIn r := by
  have hclear : Text.Clear gridMark ('\n' :: r) := Text.clear_cons (by decide) r
  induction a with
  | nil => exact gridRulesIn_cons (by decide) r
  | cons c a ih =>
    have hbegins : gridMark.isPrefixOf (c :: (a ++ '\n' :: r)) = gridMark.isPrefixOf (c :: a) := by
      rw [Bool.eq_iff_iff, List.isPrefixOf_iff_prefix, List.isPrefixOf_iff_prefix, ← List.cons_append,
        Text.prefix_append_iff hclear]
    rw [List.cons_append, gridRulesIn, gridRulesIn, hbegins, ih]
    split
    · rename_i hmark
      have hlength : 5 ≤ a.length := by
        have hle : gridMark.length ≤ (c :: a).length := (List.isPrefixOf_iff_prefix.mp hmark).length_le
        exact Nat.le_of_succ_le_succ hle
      rw [List.drop_append_of_le_length hlength, takeWhile_line, List.cons_append]
    · rfl

theorem gridRulesIn_rule {name block : List Char} (hblank : ' ' ∉ name) (hdot : '.' ∉ name ++ ' ' :: block)
    (hend : '\n' ∉ name ++ ' ' :: block) : gridRulesIn (gridMark ++ (name ++ ' ' :: block)) =
      [⟨String.ofList name, String.ofList (' ' :: block)⟩] := by
  have hmark (x : List Char) : gridMark ++ x = '.' :: ("grid-".toList ++ x) := rfl
  have hbegins (x : List Char) : gridMark.isPrefixOf ('.' :: ("grid-".toList ++ x)) = true := by
    rw [← hmark, List.isPrefixOf_iff_prefix]
    exact List.prefix_append _ x
  have hdrop (x : List Char) : ("grid-".toList ++ x).drop 5 = x := rfl
  have hline : ∀ c ∈ name ++ ' ' :: block, decide (c ≠ '\n') = true := fun c hc =>
    decide_eq_true (ne_of_mem_of_not_mem hc hend)
  have hname : ∀ c ∈ name, decide (c ≠ ' ') = true := fun c hc =>
    decide_eq_true (ne_of_mem_of_not_mem hc hblank)
  have hrest : gridRulesIn ("grid-".toList ++ (name ++ ' ' :: block)) = [] := by
    rw [gridRulesIn_skip (by decide), ← List.append_nil (name ++ _), gridRulesIn_skip hdot, gridRulesIn]
  rw [hmark, gridRulesIn, if_pos (hbegins _), hdrop, List.takeWhile_eq_self_iff.mpr hline, hrest,
    GridRule.ofLine, List.takeWhile_append_of_pos hname, List.dropWhile_append_of_pos hname]
  simp

/-! The rules of the grid -/

def columnStyles (n : Nat) : String :=
  Liquid.styles ("grid-template-columns: repeat(" ++ toString n ++ ", 1fr);")

def GridRule.columns (n : Nat) : GridRule := ⟨toString n, " " ++ columnStyles n⟩

theorem not_mem_digits {c : Char} (h : c.isDigit = false) (n : Nat) : c ∉ Nat.toDigits 10 n := by
  intro hmem
  rw [Json.Literal.digits_toDigits n c hmem] at h
  cases h

theorem gridRulesIn_scope (x : List Char) :
    gridRulesIn ("  .product-grid-\x7b\x7b section.id \x7d\x7d ".toList ++ x) = gridRulesIn x := by
  have hparts : "  .product-grid-\x7b\x7b section.id \x7d\x7d ".toList = "  ".toList ++
      '.' :: ("product-grid-\x7b\x7b section".toList ++ '.' :: "id \x7d\x7d ".toList) := by decide
  rw [hparts, List.append_assoc, gridRulesIn_skip (by decide), List.cons_append, List.append_assoc,
    gridRulesIn_dot, gridRulesIn_skip (by decide), List.cons_append, gridRulesIn_dot, gridRulesIn_skip (by decide)]
  · simp
  · simp

theorem toList_columnStyles (n : Nat) : (columnStyles n).toList =
    "\x7b grid-template-columns: repeat(".toList ++ (Nat.toDigits 10 n ++ ", 1fr); \x7d".toList) := by
  rw [columnStyles, Liquid.styles]
  simp only [String.toList_append, Nat.toString_eq_ofList_toDigits, String.toList_ofList, List.append_assoc]
  rfl

theorem not_mem_columnRule {c : Char} (hdigit : c.isDigit = false) (hblank : c ≠ ' ')
    (hopen : c ∉ "\x7b grid-template-columns: repeat(".toList) (hclose : c ∉ ", 1fr); \x7d".toList) (n : Nat) :
    c ∉ Nat.toDigits 10 n ++ ' ' :: (columnStyles n).toList := by
  have hdigits : c ∉ Nat.toDigits 10 n := not_mem_digits hdigit n
  simp only [toList_columnStyles, List.mem_append, List.mem_cons, not_or]
  exact ⟨hdigits, hblank, hopen, hdigits, hclose⟩

theorem columnRule_eq (n : Nat) : columnRule n = "  .product-grid-" ++ Liquid.instanceId ++ " .grid-" ++
    toString n ++ " " ++ columnStyles n ++ "\n" := rfl

theorem toList_columnRule (n : Nat) : (columnRule n).toList =
    "  .product-grid-\x7b\x7b section.id \x7d\x7d ".toList ++
      (gridMark ++ (Nat.toDigits 10 n ++ ' ' :: (columnStyles n).toList)) ++ ['\n'] := by
  have hscope : "  .product-grid-\x7b\x7b section.id \x7d\x7d ".toList =
      "  .product-grid-".toList ++ Liquid.instanceId.toList ++ [' '] := by decide
  have hmark : " .grid-".toList = ' ' :: gridMark := by decide
  have hblank : " ".toList = [' '] := by decide
  have hend : "\n".toList = ['\n'] := by decide
  rw [columnRule_eq, hscope]
  simp only [String.toList_append, Nat.toString_eq_ofList_toDigits, String.toList_ofList, hmark, hblank, hend,
    List.append_assoc, List.cons_append, List.nil_append]

theorem gridRulesIn_columnRule (n : Nat) (r : List Char) :
    gridRulesIn ((columnRule n).toList ++ r) = GridRule.columns n :: gridRulesIn r := by
  have hblank : ' ' ∉ Nat.toDigits 10 n := not_mem_digits (by decide) n
  have hdot : '.' ∉ Nat.toDigits 10 n ++ ' ' :: (columnStyles n).toList :=
    not_mem_columnRule (by decide) (by decide) (by decide) (by decide) n
  have hend : '\n' ∉ Nat.toDigits 10 n ++ ' ' :: (columnStyles n).toList :=
    not_mem_columnRule (by decide) (by decide) (by decide) (by decide) n
  rw [toList_columnRule, List.append_assoc, List.singleton_append, gridRulesIn_line, gridRulesIn_scope,
    gridRulesIn_rule hblank hdot hend]
  have hrule : (⟨String.ofList (Nat.toDigits 10 n), String.ofList (' ' :: (columnStyles n).toList)⟩ : GridRule) =
      .columns n := by
    rw [GridRule.columns, Nat.toString_eq_ofList_toDigits, GridRule.mk.injEq, ← String.toList_inj,
      ← String.toList_inj]
    simp
  rw [hrule, List.singleton_append]

theorem gridRulesIn_columnRules (ns : List Nat) (r : List Char) :
    gridRulesIn ((String.join (ns.map columnRule)).toList ++ r) =
      ns.map GridRule.columns ++ gridRulesIn r := by
  induction ns with
  | nil => rfl
  | cons n ns ih =>
    rw [List.map_cons, String.join_cons, String.toList_append, List.append_assoc, gridRulesIn_columnRule, ih,
      List.map_cons, List.cons_append]

theorem gridRulesIn_lines {text : String} {ls : List String} (htext : text = Liquid.lines ls)
    (hno : ∀ l ∈ ls, gridRulesIn l.toList = []) (r : List Char) :
    gridRulesIn (text.toList ++ r) = gridRulesIn r := by
  have hend : "\n".toList = ['\n'] := by decide
  subst htext
  induction ls with
  | nil => rfl
  | cons l ls ih =>
    have hlines : Liquid.lines (l :: ls) = l ++ "\n" ++ Liquid.lines ls := by
      rw [Liquid.lines, List.map_cons, String.join_cons, ← Liquid.lines]
    rw [List.forall_mem_cons] at hno
    rw [hlines, String.toList_append, String.toList_append, hend, List.append_assoc, List.append_assoc,
      List.singleton_append, gridRulesIn_line, hno.1, List.nil_append, ih hno.2]

theorem gridRules_gridMarkup {s : Section} {d : Setting} {options : List Choice}
    (hd : s.setting? "columns" = some d) (hkind : d.kind = .select options) :
    gridRules (gridMarkup s) = (options.filterMap (columnCount? ·.value)).map .columns := by
  have hrules : columnRules s = String.join ((options.filterMap (columnCount? ·.value)).map columnRule) := by
    rw [columnRules, hd, Option.map_some, hkind]
  have hstart (r : List Char) : gridRulesIn (gridStart.toList ++ r) = gridRulesIn r :=
    gridRulesIn_lines rfl (by decide +kernel) r
  have hend : gridRulesIn (gridEnd.toList ++ []) = [] := gridRulesIn_lines rfl (by decide +kernel) []
  rw [List.append_nil] at hend
  rw [gridRules, gridMarkup, String.toList_append, String.toList_append, List.append_assoc, hstart, hrules,
    gridRulesIn_columnRules, hend, List.append_nil]

/-! The options that are numbers -/

def unsigned (v : String) : List Char :=
  match v.toList with
  | '+' :: ds => ds
  | ds => ds

structure Numeral (ds : List Char) (n : Nat) : Prop where
  ne_nil : ds ≠ []
  digits : ∀ c ∈ ds, c.isDigit = true
  value : Nat.ofDigitChars 10 ds 0 = n

theorem unsigned_of_head_ne (h : v.toList.head? ≠ some '+') : unsigned v = v.toList := by
  unfold unsigned
  split
  · rename_i hplus
    rw [hplus] at h
    exact absurd rfl h
  · rfl

theorem columnCount?_eq_some_iff : columnCount? v = some n ↔ Numeral (unsigned v) n ∧ n < 0x100000000 := by
  have hcount : columnCount? v = if unsigned v ≠ [] ∧ (unsigned v).all Char.isDigit then
      if Nat.ofDigitChars 10 (unsigned v) 0 < 0x100000000 then some (Nat.ofDigitChars 10 (unsigned v) 0) else none
      else none := by
    rw [Nat.ofDigitChars_eq_foldl]
    rfl
  rw [hcount]
  constructor
  · intro h
    split at h
    · rename_i hds
      split at h
      · rename_i hlt
        cases h
        exact ⟨⟨hds.1, List.all_eq_true.mp hds.2, rfl⟩, hlt⟩
      · cases h
    · cases h
  · intro h
    obtain ⟨⟨hne, hdigits, rfl⟩, hlt⟩ := h
    rw [if_pos ⟨hne, List.all_eq_true.mpr hdigits⟩, if_pos hlt]

/-- A text that begins neither with a plus nor, unless it is zero, with a zero. -/
def Plain (v : String) : Prop := v.toList.head? ≠ some '+' ∧ (v.toList.head? = some '0' → v = "0")

instance (v : String) : Decidable (Plain v) := inferInstanceAs (Decidable (_ ∧ _))

theorem opens_iff (hne : v.toList ≠ []) : Json.Literal.Opens v.toList ↔ (v.toList.head? = some '0' → v = "0") := by
  have hzero : v = "0" ↔ v.toList = ['0'] := by
    rw [← String.toList_inj]
    rfl
  rw [hzero]
  cases hds : v.toList with
  | nil => exact absurd hds hne
  | cons c r =>
    rw [Json.Literal.Opens, List.head?_cons, Option.some.injEq]
    constructor
    · intro h hc
      apply h.resolve_right
      intro hopens
      obtain ⟨c', r', heq, hne⟩ := hopens
      exact hne ((List.cons.inj heq).1 ▸ hc)
    · intro h
      by_cases hc : c = '0'
      · exact .inl (h hc)
      · exact .inr ⟨c, r, rfl, hc⟩

theorem toString_eq_iff (h : columnCount? v = some n) : toString n = v ↔ Plain v := by
  have htext : toString n = v ↔ Nat.toDigits 10 n = v.toList := by
    rw [Nat.toString_eq_ofList_toDigits, ← String.toList_inj, String.toList_ofList]
  rw [htext]
  by_cases hplus : v.toList.head? = some '+'
  · constructor
    · intro heq
      rw [← heq] at hplus
      exact absurd (List.mem_of_mem_head? hplus) (not_mem_digits (by decide) n)
    · intro hplain
      exact absurd hplus hplain.1
  · obtain ⟨hnumeral, -⟩ := columnCount?_eq_some_iff.mp h
    rw [unsigned_of_head_ne hplus] at hnumeral
    rw [Plain, and_iff_right hplus, ← opens_iff hnumeral.ne_nil]
    constructor
    · intro heq
      rw [← heq]
      exact Json.Literal.opens_toDigits n
    · intro hopens
      rw [← hnumeral.value]
      exact Json.Literal.toDigits_ofDigitChars hnumeral.digits hopens

/-! One rule for each option -/

def counted (options : List Choice) : List Choice := options.filter fun o => (columnCount? o.value).isSome

/-- Every option that is a number has one rule with its text for a name, in the order of the options, and no
other text has one. -/
structure OnePerOption (rules : List GridRule) (options : List Choice) : Prop where
  in_order : rules.map (·.name) = (counted options).map (·.value)
  once : ∀ o ∈ counted options, (rules.map (·.name)).count o.value = 1

theorem names_eq_values_iff (options : List Choice) :
    ((options.filterMap (columnCount? ·.value)).map GridRule.columns).map (·.name) =
      (counted options).map (·.value) ↔ ∀ o ∈ counted options, Plain o.value := by
  induction options with
  | nil => simp [counted]
  | cons o options ih =>
    cases hcount : columnCount? o.value with
    | none =>
      have hcounted : counted (o :: options) = counted options := List.filter_cons_of_neg (by simp [hcount])
      have hcounts : (o :: options).filterMap (columnCount? ·.value) = options.filterMap (columnCount? ·.value) :=
        List.filterMap_cons_none hcount
      rw [hcounted, hcounts, ih]
    | some n =>
      have hcounted : counted (o :: options) = o :: counted options := List.filter_cons_of_pos (by simp [hcount])
      have hcounts : (o :: options).filterMap (columnCount? ·.value) =
          n :: options.filterMap (columnCount? ·.value) := List.filterMap_cons_some hcount
      rw [hcounted, hcounts, List.map_cons, List.map_cons, List.map_cons, List.cons.injEq, List.forall_mem_cons, ih,
        ← toString_eq_iff hcount, GridRule.columns]

theorem nodup_counted {options : List Choice} (h : (options.map (·.value)).Nodup) :
    ((counted options).map (·.value)).Nodup :=
  h.sublist (List.filter_sublist.map _)

/-- The rules in the markup of an accepted section are those for the numbers among its options. Each has the
text of its option for a name exactly if these texts are plain. -/
theorem grid_rules_follow_options {s : Section} {d : Setting} {options : List Choice} (hs : s.defect? = none)
    (hd : s.setting? "columns" = some d) (hkind : d.kind = .select options) :
    gridRules (gridMarkup s) = (options.filterMap (columnCount? ·.value)).map .columns ∧
      (OnePerOption (gridRules (gridMarkup s)) options ↔ ∀ o ∈ counted options, Plain o.value) := by
  have hrules := gridRules_gridMarkup hd hkind
  have hsound : (Setting.Kind.select options).Sound := by
    rw [← hkind]
    exact (Section.defect?_eq_none_iff.mp hs).kinds d (List.mem_of_find?_eq_some hd)
  have hnames := names_eq_values_iff options
  rw [← hrules] at hnames
  apply And.intro hrules
  constructor
  · intro h
    exact hnames.mp h.in_order
  · intro h
    have horder := hnames.mpr h
    apply OnePerOption.mk horder
    intro o ho
    rw [horder]
    exact List.count_eq_one_of_mem (nodup_counted hsound.2) (List.mem_map_of_mem ho)

def gridWith (default : String) (texts : List String) : Section :=
  { grid with settings := [⟨"columns", "Columns", .str default, .select (texts.map fun t => ⟨t, t⟩)⟩] }

theorem grid_rules_of_two_and_ten :
    (gridRules (gridMarkup (gridWith "2" ["2", "auto", "10"]))).map (·.name) = ["2", "10"] ∧
      OnePerOption (gridRules (gridMarkup (gridWith "2" ["2", "auto", "10"])))
        (["2", "auto", "10"].map fun t => ⟨t, t⟩) := by
  have hdefect : (gridWith "2" ["2", "auto", "10"]).defect? = none := by decide
  obtain ⟨hrules, hiff⟩ := grid_rules_follow_options hdefect rfl rfl
  constructor
  · rw [hrules]
    decide
  · apply hiff.mpr
    decide

/-- The grid has the class of the text `02`, and the rule has that of the number. -/
theorem grid_rule_loses_zero : (gridWith "2" ["2", "02"]).defect? = none ∧ (columnCount? "02").isSome = true ∧
    (gridRules (gridMarkup (gridWith "2" ["2", "02"]))).map (·.name) = ["2", "2"] ∧
    ¬ OnePerOption (gridRules (gridMarkup (gridWith "2" ["2", "02"]))) (["2", "02"].map fun t => ⟨t, t⟩) := by
  have hnames : (gridRules (gridMarkup (gridWith "2" ["2", "02"]))).map (·.name) = ["2", "2"] := by
    rw [gridRules_gridMarkup rfl rfl]
    decide
  have hcount : (columnCount? "02").isSome = true := by decide
  apply And.intro (by decide)
  apply And.intro hcount
  apply And.intro hnames
  intro h
  have horder := h.in_order
  rw [hnames] at horder
  exact absurd horder (by decide)

end Storefront.Stock
