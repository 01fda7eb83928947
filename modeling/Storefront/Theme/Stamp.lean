import Storefront.Bytes
/-! What tells one export from another: an id from random bytes, and the moment of the export. -/

namespace Storefront

structure Stamp where
  exportId : String
  createdAt : String
  deriving DecidableEq, Repr

namespace Stamp

def idOf (random : List UInt8) : String :=
  let bs := (random.set 6 (random.getD 6 0 &&& 0x0F ||| 0x40)).set 8 (random.getD 8 0 &&& 0x3F ||| 0x80)
  let part (i n : Nat) := Hex.ofBytes ((bs.drop i).take n)
  "-".intercalate [part 0 4, part 4 2, part 6 2, part 8 2, part 10 6]

def digits (n v : Nat) : String :=
  String.ofList ((List.range n).map fun i => Nat.digitChar (v / Nat.pow 10 (n - 1 - i) % 10))

/-- Year, month and day, `n` days after the first of March of the year 0. -/
def dateOf (n : Nat) : Nat × Nat × Nat :=
  let era := n / 146097
  let day := n % 146097
  let year := (day - day / 1460 + day / 36524 - day / 146096) / 365
  let day := day - (365 * year + year / 4 - year / 100)
  let m := (5 * day + 2) / 153
  let month := if m < 10 then m + 3 else m - 9
  (400 * era + year + (if month ≤ 2 then 1 else 0), month, day - (153 * m + 2) / 5 + 1)

def momentOf (seconds nanoseconds : Nat) : String :=
  let (year, month, day) := dateOf (seconds / 86400 + 719468)
  digits 4 year ++ "-" ++ digits 2 month ++ "-" ++ digits 2 day ++ "T" ++
    digits 2 (seconds / 3600 % 24) ++ ":" ++ digits 2 (seconds / 60 % 60) ++ ":" ++ digits 2 (seconds % 60) ++
    "." ++ digits 9 nanoseconds ++ "Z"

example : dateOf (0 + 719468) = (1970, 1, 1) ∧ dateOf (19782 + 719468) = (2024, 2, 29) := by decide

end Stamp

end Storefront
