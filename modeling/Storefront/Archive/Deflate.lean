import Storefront.Bytes
/-!
Deflate streams without compression: blocks of stored bytes, each with its length twice. Archives are packed
with any function that deflates, and this is the one that the program gives them.
-/

namespace Storefront.Deflate

def blockSize : Nat := 65535

def block (last : Bool) (bs : List UInt8) : List UInt8 :=
  (if last then 1 else 0) ::
    (Bytes.littleEndian 2 bs.length ++ Bytes.littleEndian 2 (65535 - bs.length) ++ bs)

def blocks : Nat → List UInt8 → List UInt8
  | 0, bs => block true bs
  | n + 1, bs => block false (bs.take blockSize) ++ blocks n (bs.drop blockSize)

def deflate (bs : List UInt8) : List UInt8 := blocks ((bs.length - 1) / blockSize) bs

def inflateBlocks : (fuel : Nat) → List UInt8 → Option (List UInt8)
  | 0, _ => none
  | fuel + 1, bs =>
    match bs with
    | [] => none
    | b :: r =>
      let n := Bytes.number r 0 2
      if b.toNat / 2 % 4 ≠ 0 ∨ Bytes.number r 2 2 ≠ 65535 - n ∨ r.length < n + 4 then none
      else
        let content := Bytes.slice r 4 n
        let r := r.drop (n + 4)
        if b.toNat % 2 = 1 then if r = [] then some content else none
        else (inflateBlocks fuel r).map (content ++ ·)

def inflate? (bs : List UInt8) : Option (List UInt8) := inflateBlocks bs.length bs

end Storefront.Deflate
