/-!
Quoted texts of TOML: basic ones with escapes and literal ones without, on one line or on several. Each
reader takes what follows the opening quotes; `none` means that the text is not well formed.
-/

namespace Storefront.Toml

def isPlain (c : Char) : Bool :=
  c == '\t' || (0x20 ≤ c.toNat && c.toNat ≤ 0x7E) || 0x80 ≤ c.toNat

def isSpace (c : Char) : Bool := c == ' ' || c == '\t'

def dropSpace (cs : List Char) : List Char := cs.dropWhile isSpace

def newline? : List Char → Option (List Char)
  | '\n' :: r => some r
  | '\r' :: '\n' :: r => some r
  | _ => none

def dropComment : List Char → List Char
  | '#' :: r => r.dropWhile isPlain
  | cs => cs

def hexDigit? (c : Char) : Option Nat :=
  if c.isDigit then some (c.toNat - 48)
  else if 'a' ≤ c && c ≤ 'f' then some (c.toNat - 87)
  else if 'A' ≤ c && c ≤ 'F' then some (c.toNat - 55)
  else none

def hexChar? (n : Nat) (cs : List Char) : Option (Char × List Char) := do
  let ds := cs.take n
  if ds.length < n then none
  let v ← ds.foldlM (fun v c => (hexDigit? c).map (16 * v + ·)) 0
  if v.isValidChar then some (Char.ofNat v, cs.drop n) else none

def escape? : List Char → Option (Char × List Char)
  | 'b' :: r => some ('\x08', r)
  | 'f' :: r => some ('\x0c', r)
  | 'n' :: r => some ('\n', r)
  | 'r' :: r => some ('\r', r)
  | 't' :: r => some ('\t', r)
  | '"' :: r => some ('"', r)
  | '\\' :: r => some ('\\', r)
  | 'u' :: r => hexChar? 4 r
  | 'U' :: r => hexChar? 8 r
  | _ => none

def basic (acc : List Char) : (fuel : Nat) → List Char → Option (String × List Char)
  | 0, _ => none
  | fuel + 1, cs =>
    match cs with
    | [] => none
    | '"' :: r => some (String.ofList acc.reverse, r)
    | '\\' :: r =>
      match escape? r with
      | some (c, r) => basic (c :: acc) fuel r
      | none => none
    | c :: r => if isPlain c then basic (c :: acc) fuel r else none

def literal (acc : List Char) : List Char → Option (String × List Char)
  | [] => none
  | '\'' :: r => some (String.ofList acc.reverse, r)
  | c :: r => if isPlain c then literal (c :: acc) r else none

def dropLines (fuel : Nat) (cs : List Char) : List Char :=
  match fuel with
  | 0 => cs
  | fuel + 1 =>
    match newline? (dropSpace cs) with
    | some r => dropLines fuel r
    | none => dropSpace cs

/-- What follows three closing quotes. Up to two more quotes still belong to the text. -/
def closeTriple (quote : Char) (acc r : List Char) : String × List Char :=
  match r with
  | c :: d :: r' =>
    if c = quote ∧ d = quote then (String.ofList (quote :: quote :: acc).reverse, r')
    else if c = quote then (String.ofList (quote :: acc).reverse, d :: r')
    else (String.ofList acc.reverse, r)
  | [c] => if c = quote then (String.ofList (quote :: acc).reverse, []) else (String.ofList acc.reverse, r)
  | [] => (String.ofList acc.reverse, [])

/-- A basic text of several lines up to its quotes. A backslash at the end of a line takes away the
white space up to the next character. -/
def basicLines (acc : List Char) : (fuel : Nat) → List Char → Option (String × List Char)
  | 0, _ => none
  | fuel + 1, cs =>
    match cs with
    | [] => none
    | '"' :: '"' :: '"' :: r => some (closeTriple '"' acc r)
    | '\\' :: r =>
      match newline? (dropSpace r) with
      | some r => basicLines acc fuel (dropLines fuel r)
      | none =>
        match escape? r with
        | some (c, r) => basicLines (c :: acc) fuel r
        | none => none
    | '\n' :: r => basicLines ('\n' :: acc) fuel r
    | '\r' :: '\n' :: r => basicLines ('\n' :: acc) fuel r
    | c :: r => if isPlain c then basicLines (c :: acc) fuel r else none

def literalLines (acc : List Char) : List Char → Option (String × List Char)
  | [] => none
  | '\'' :: '\'' :: '\'' :: r => some (closeTriple '\'' acc r)
  | '\n' :: r => literalLines ('\n' :: acc) r
  | '\r' :: '\n' :: r => literalLines ('\n' :: acc) r
  | c :: r => if isPlain c then literalLines (c :: acc) r else none

def dropFirstNewline (cs : List Char) : List Char := (newline? cs).getD cs

def quoted (cs : List Char) : Option (String × List Char) :=
  match cs with
  | '"' :: '"' :: '"' :: r => basicLines [] (r.length + 1) (dropFirstNewline r)
  | '"' :: r => basic [] (r.length + 1) r
  | '\'' :: '\'' :: '\'' :: r => literalLines [] (dropFirstNewline r)
  | '\'' :: r => literal [] r
  | _ => none

end Storefront.Toml
