import Mathlib.Data.Nat.Digits.Defs

/-!
# Signatures of the secret scanner

GitHub's signatures are DER, a sequence of two integers; the platform verifies the
two written out in 32 bytes each.
-/

namespace CleanStack.ApiToken

/-- Both ends are cut to the array. -/
def subarray (bytes : List UInt8) (start stop : Nat) : List UInt8 := (bytes.take stop).drop start

/-- `target.set(source, offset)`, which throws where the source does not fit. -/
def set (target source : List UInt8) (offset : Int) : Option (List UInt8) :=
  if offset < 0 ∨ target.length < offset + source.length then none
  else some (target.take offset.toNat ++ source ++ target.drop (offset.toNat + source.length))

/-- The last 32 bytes. -/
def lastBytes (bytes : List UInt8) : List UInt8 :=
  if 32 < bytes.length then subarray bytes (bytes.length - 32) bytes.length else bytes

def derToRaw (der : List UInt8) : Option (List UInt8) :=
  let offset := if der[1]? = some 0x81 then 3 else 2
  let rLen := (der[offset + 1]?.getD 0).toNat
  let rBytes := subarray der (offset + 2) (offset + 2 + rLen)
  let sOffset := offset + 2 + rLen
  let sLen := (der[sOffset + 1]?.getD 0).toNat
  let sBytes := subarray der (sOffset + 2) (sOffset + 2 + sLen)
  let r := lastBytes rBytes
  let s := lastBytes sBytes
  let raw := List.replicate 64 0
  (set raw r (32 - (r.length : Int))).bind fun raw => set raw s (64 - (s.length : Int))

/-! ## The encoding of a signature -/

/-- Big-endian, without leading zeros. -/
def unsignedBytes (n : Nat) : List UInt8 := (Nat.digits 256 n).reverse.map Nat.toUInt8

/-- The content of a DER INTEGER that is not negative: the shortest whose first bit
is clear. -/
def integerContent (n : Nat) : List UInt8 :=
  match unsignedBytes n with
  | [] => [0]
  | b :: bytes => if 0x80 ≤ b then 0 :: b :: bytes else b :: bytes

def derLength (n : Nat) : List UInt8 :=
  if n < 0x80 then [n.toUInt8]
  else (0x80 + (unsignedBytes n).length).toUInt8 :: unsignedBytes n

def derTagged (tag : UInt8) (content : List UInt8) : List UInt8 :=
  tag :: (derLength content.length ++ content)

def derSignature (r s : Nat) : List UInt8 :=
  derTagged 0x30 (derTagged 0x02 (integerContent r) ++ derTagged 0x02 (integerContent s))

example : derToRaw (derSignature 0x80 1) =
    some (List.replicate 31 0 ++ 0x80 :: (List.replicate 31 0 ++ [1])) := by decide +kernel

end CleanStack.ApiToken
