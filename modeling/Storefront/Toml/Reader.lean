import Storefront.Toml.Literal
import Storefront.Toml.Quoted
/-!
TOML documents. A reader answers `none` for a text that is no document, also where a key or table is
defined twice.
-/

namespace Storefront.Toml

/-- How deep arrays and inline tables may be nested, and how many parts a key may have, at most one
less than this. -/
def depthLimit : Nat := 80

def isBare (c : Char) : Bool := c.isAlphanum || c == '-' || c == '_'

def keyPart? (cs : List Char) : Option (String × List Char) :=
  match cs with
  | '"' :: r => basic [] (r.length + 1) r
  | '\'' :: r => literal [] r
  | cs =>
    match cs.span isBare with
    | ([], _) => none
    | (k, r) => some (String.ofList k, r)

def keyParts? : (fuel : Nat) → List Char → Option (List String × List Char)
  | 0, _ => none
  | fuel + 1, cs => do
    let (k, r) ← keyPart? (dropSpace cs)
    match dropSpace r with
    | '.' :: r =>
      let (ks, r) ← keyParts? fuel r
      return (k :: ks, r)
    | r => return ([k], r)

def key? (cs : List Char) : Option (List String × String × List Char) := do
  let (ks, r) ← keyParts? (cs.length + 1) cs
  if depthLimit ≤ ks.length then none
  return (ks.dropLast, ← ks.getLast?, r)

def word? : (w : List Char) → List Char → Option (List Char)
  | [], cs => some cs
  | c :: w, cs => expect? c cs >>= word? w

def dropGaps : (fuel : Nat) → List Char → List Char
  | 0, cs => cs
  | fuel + 1, cs =>
    match newline? (dropComment (dropSpace cs)) with
    | some r => dropGaps fuel r
    | none => dropSpace cs

mutual

def value? : (fuel depth : Nat) → List Char → Option (Node × List Char)
  | 0, _, _ => none
  | fuel + 1, depth, cs =>
    match cs with
    | [] => none
    | c :: r =>
      if c = '"' ∨ c = '\'' then (quoted cs).map fun (s, r) => (.scalar (.text s), r)
      else if c = '[' then
        if depth + 1 < depthLimit then arrayItems? fuel (depth + 1) [] r else none
      else if c = '\x7b' then
        if depth + 1 < depthLimit then
          match dropSpace r with
          | '\x7d' :: r => some (.closed [], r)
          | r => inlineEntries? fuel (depth + 1) [] r
        else none
      else if c = 't' then (word? ['r', 'u', 'e'] r).map fun r => (.scalar (.bool true), r)
      else if c = 'f' then (word? ['a', 'l', 's', 'e'] r).map fun r => (.scalar (.bool false), r)
      else
        match moment? cs with
        | some r => some (.scalar .time, r)
        | none => (number? cs).map fun (s, r) => (.scalar s, r)

def arrayItems? : (fuel depth : Nat) → List Node → List Char → Option (Node × List Char)
  | 0, _, _, _ => none
  | fuel + 1, depth, acc, cs =>
    match dropGaps (cs.length + 1) cs with
    | ']' :: r => some (.array acc.reverse, r)
    | cs =>
      match value? fuel depth cs with
      | none => none
      | some (v, r) =>
        match dropGaps (r.length + 1) r with
        | ',' :: r => arrayItems? fuel depth (v :: acc) r
        | ']' :: r => some (.array (v :: acc).reverse, r)
        | _ => none

def inlineEntries? : (fuel depth : Nat) → Table → List Char → Option (Node × List Char)
  | 0, _, _, _ => none
  | fuel + 1, depth, t, cs =>
    match key? cs with
    | some (path, k, '=' :: r) =>
      match value? fuel depth (dropSpace r) with
      | none => none
      | some (v, r) =>
        match assign path k v t, dropSpace r with
        | some t, ',' :: r => inlineEntries? fuel depth t r
        | some t, '\x7d' :: r => some (.closed t, r)
        | _, _ => none
    | _ => none

end

def lineEnd? (cs : List Char) : Option (List Char) :=
  match dropComment (dropSpace cs) with
  | [] => some []
  | cs => newline? cs

/-- A document that is read in part. The table under the last header is kept apart from the others
until the next header. -/
structure State where
  root : Table
  current : Table
  header : Option (List String × String)
  inArray : Bool

namespace State

def start : State := ⟨[], [], none, false⟩

def close (s : State) : Option Table :=
  match s.header with
  | none => some s.current
  | some (path, k) =>
    let place (_ : Origin) (t : Table) : Option (Table × Unit) :=
      match s.inArray, t.get? k with
      | true, some (.tables elements) => some (t.put k (.tables (elements ++ [s.current])), ())
      | false, none => some (t.put k (.table .written s.current), ())
      | _, _ => none
    (change false place path .written s.root).map Prod.fst

/-- Goes on with the table `k` under `path`. A table that was only implied keeps its entries. -/
def openTable (s : State) (path : List String) (k : String) : Option State := do
  let root ← s.close
  let find (_ : Origin) (t : Table) : Option (Table × Table) :=
    match t.get? k with
    | none => some (t, [])
    | some (.table .implied inner) => some (t.filter (·.1 != k), inner)
    | some _ => none
  let (root, current) ← change false find path .written root
  return ⟨root, current, some (path, k), false⟩

def openElement (s : State) (path : List String) (k : String) : Option State := do
  let root ← s.close
  let find (_ : Origin) (t : Table) : Option (Table × Unit) :=
    match t.get? k with
    | none => some (t.put k (.tables []), ())
    | some (.tables _) => some (t, ())
    | some _ => none
  let (root, _) ← change false find path .written root
  return ⟨root, [], some (path, k), true⟩

def line (s : State) (cs : List Char) : Option (State × List Char) :=
  match cs with
  | '[' :: '[' :: r => do
    let (path, k, r) ← key? r
    let r ← lineEnd? (← expect? ']' (← expect? ']' r))
    return (← s.openElement path k, r)
  | '[' :: r => do
    let (path, k, r) ← key? r
    let r ← lineEnd? (← expect? ']' r)
    return (← s.openTable path k, r)
  | cs => do
    let (path, k, r) ← key? cs
    let (v, r) ← value? (2 * r.length + 2) 0 (dropSpace (← expect? '=' r))
    let r ← lineEnd? r
    return ({ s with current := ← assign path k v s.current }, r)

def lines (s : State) : (fuel : Nat) → List Char → Option State
  | 0, _ => none
  | fuel + 1, cs =>
    match dropSpace cs with
    | [] => some s
    | '#' :: r => lineEnd? ('#' :: r) >>= lines s fuel
    | c :: r =>
      match newline? (c :: r) with
      | some r => lines s fuel r
      | none => do
        let (s, r) ← s.line (c :: r)
        lines s fuel r

end State

/-- The table that a document is; a byte order mark may stand before it. -/
def ofText? (text : String) : Option Table := do
  let cs := match text.toList with
    | '\ufeff' :: r => r
    | cs => cs
  let s ← State.start.lines (cs.length + 1) cs
  s.close

end Storefront.Toml
