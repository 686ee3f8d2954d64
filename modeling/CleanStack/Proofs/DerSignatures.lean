import CleanStack.ApiToken.GithubKeyVerifier
import CleanStack.Lib.Digits

/-!
# Signatures written out in 64 bytes

Whatever the bytes are, the two parts that are cut out of them are at most 32 bytes
long when they are written, so each fits in front of its end and nothing throws. A
DER integer below 2^256 has at most 33 bytes, and where it has 33 the first is the
sign's.
-/

namespace CleanStack.ApiToken

open CleanStack.Lib

/-! ## Any bytes -/

/-- With zeros in front, 32 bytes. -/
def padded (part : List UInt8) : List UInt8 := List.replicate (32 - part.length) 0 ++ part

theorem length_padded {part : List UInt8} (h : part.length ≤ 32) : (padded part).length = 32 := by
  rw [padded, List.length_append, List.length_replicate]
  omega

theorem length_lastBytes (bytes : List UInt8) : (lastBytes bytes).length ≤ 32 := by
  unfold lastBytes subarray
  split_ifs with hlong
  · rw [List.length_drop, List.length_take]
    omega
  · omega

theorem set_first {part : List UInt8} (h : part.length ≤ 32) :
    set (List.replicate 64 0) part (32 - (part.length : Int)) =
      some (padded part ++ List.replicate 32 0) := by
  have hoffset : (32 - (part.length : Int)).toNat = 32 - part.length := by omega
  have hrest : 64 - (32 - part.length + part.length) = 32 := by omega
  rw [set, if_neg (by rw [List.length_replicate]; omega), hoffset, List.take_replicate,
    List.drop_replicate, hrest, Nat.min_eq_left (by omega), padded]

theorem set_second {front part : List UInt8} (hfront : front.length = 32) (h : part.length ≤ 32) :
    set (front ++ List.replicate 32 0) part (64 - (part.length : Int)) =
      some (front ++ padded part) := by
  have hoffset : (64 - (part.length : Int)).toNat = front.length + (32 - part.length) := by omega
  rw [set, if_neg (by rw [List.length_append, List.length_replicate]; omega), hoffset,
    List.take_length_add_append, List.take_replicate, List.drop_eq_nil_of_le, List.append_nil,
    padded, Nat.min_eq_left (by omega), List.append_assoc]
  rw [List.length_append, List.length_replicate]
  omega

/-- Where the integers begin. -/
def offsetOf (der : List UInt8) : Nat := if der[1]? = some 0x81 then 3 else 2

def rLenOf (der : List UInt8) : Nat := (der[offsetOf der + 1]?.getD 0).toNat

/-- The first integer's content, as it is cut out. -/
def rBytesOf (der : List UInt8) : List UInt8 :=
  subarray der (offsetOf der + 2) (offsetOf der + 2 + rLenOf der)

def sOffsetOf (der : List UInt8) : Nat := offsetOf der + 2 + rLenOf der

def sBytesOf (der : List UInt8) : List UInt8 :=
  subarray der (sOffsetOf der + 2)
    (sOffsetOf der + 2 + (der[sOffsetOf der + 1]?.getD 0).toNat)

theorem derToRaw_eq (der : List UInt8) :
    derToRaw der = some (padded (lastBytes (rBytesOf der)) ++ padded (lastBytes (sBytesOf der))) := by
  have hsets : derToRaw der = (set (List.replicate 64 0) (lastBytes (rBytesOf der))
      (32 - ((lastBytes (rBytesOf der)).length : Int))).bind fun raw =>
        set raw (lastBytes (sBytesOf der)) (64 - ((lastBytes (sBytesOf der)).length : Int)) := rfl
  rw [hsets, set_first (length_lastBytes _), Option.bind_some,
    set_second (length_padded (length_lastBytes _)) (length_lastBytes _)]

/-! ## Integers -/

/-- The 32-byte big-endian encoding. -/
def bytes32 (n : Nat) : List UInt8 := digitsOf Nat.toUInt8 256 32 n

theorem unsignedBytes_concat {n : Nat} (h : 0 < n) :
    unsignedBytes n = unsignedBytes (n / 256) ++ [(n % 256).toUInt8] := by
  rw [unsignedBytes, Nat.digits_def' (by decide) h, List.reverse_cons, List.map_append]
  rfl

theorem unsignedBytes_padded {k n : Nat} (h : n < 256 ^ k) :
    (unsignedBytes n).length ≤ k ∧
      digitsOf Nat.toUInt8 256 k n =
        List.replicate (k - (unsignedBytes n).length) 0 ++ unsignedBytes n := by
  induction k generalizing n with
  | zero =>
    rw [Nat.pow_zero, Nat.lt_one_iff] at h
    subst h
    exact ⟨by simp [unsignedBytes], by simp [unsignedBytes, digitsOf]⟩
  | succ k ih =>
    rcases Nat.eq_zero_or_pos n with rfl | hpos
    · rw [digitsOf_zero]
      exact ⟨by simp [unsignedBytes], by simp [unsignedBytes]⟩
    · obtain ⟨hlen, hdigits⟩ := ih (Nat.div_lt_of_lt_mul (by rwa [Nat.mul_comm, ← Nat.pow_succ]))
      rw [digitsOf, hdigits, unsignedBytes_concat hpos, List.length_append, List.length_singleton]
      refine ⟨by omega, ?_⟩
      rw [Nat.add_sub_add_right, List.append_assoc]

theorem padded_unsignedBytes {n : Nat} (h : n < 2 ^ 256) :
    (unsignedBytes n).length ≤ 32 ∧ padded (unsignedBytes n) = bytes32 n := by
  have hpad := unsignedBytes_padded (k := 32) (n := n) (by omega)
  exact ⟨hpad.1, hpad.2.symm⟩

/-- A sign byte, or none. -/
theorem integerContent_cases {n : Nat} (h : 0 < n) :
    integerContent n = unsignedBytes n ∨ integerContent n = 0 :: unsignedBytes n := by
  have hne : unsignedBytes n ≠ [] := by
    rw [unsignedBytes_concat h]
    exact List.concat_ne_nil _ _
  unfold integerContent
  split
  · contradiction
  · split_ifs with hhigh
    · right; simp_all
    · left; simp_all

theorem padded_zero_cons {bytes : List UInt8} (h : bytes.length < 32) :
    padded (0 :: bytes) = padded bytes := by
  rw [padded, padded, List.length_cons, show 32 - bytes.length = 32 - (bytes.length + 1) + 1 by omega,
    List.replicate_succ', List.append_assoc]
  rfl

theorem lastBytes_short {bytes : List UInt8} (h : bytes.length ≤ 32) : lastBytes bytes = bytes :=
  if_neg (by omega)

theorem lastBytes_sign {bytes : List UInt8} (h : bytes.length = 32) :
    lastBytes (0 :: bytes) = bytes := by
  rw [lastBytes, List.length_cons, if_pos (by omega), subarray, h]
  show ((0 :: bytes).take 33).drop 1 = bytes
  rw [List.take_of_length_le (by rw [List.length_cons]; omega)]
  rfl

theorem padded_integerContent {n : Nat} (hpos : 0 < n) (h : n < 2 ^ 256) :
    padded (lastBytes (integerContent n)) = bytes32 n := by
  obtain ⟨hlen, hpad⟩ := padded_unsignedBytes h
  rcases integerContent_cases hpos with heq | heq
  · rw [heq, lastBytes_short hlen, hpad]
  · rw [heq]
    rcases Nat.lt_or_eq_of_le hlen with hlt | hfull
    · rw [lastBytes_short (show (0 :: unsignedBytes n).length ≤ 32 from hlt), padded_zero_cons hlt, hpad]
    · rw [lastBytes_sign hfull, hpad]

theorem length_integerContent {n : Nat} (hpos : 0 < n) (h : n < 2 ^ 256) :
    (integerContent n).length ≤ 33 := by
  have hlen := (padded_unsignedBytes h).1
  rcases integerContent_cases hpos with heq | heq <;> rw [heq]
  · omega
  · rw [List.length_cons]
    omega

/-! ## Signatures -/

theorem derTagged_short (tag : UInt8) {content : List UInt8} (h : content.length < 0x80) :
    derTagged tag content = tag :: content.length.toUInt8 :: content := by
  rw [derTagged, derLength, if_pos h]
  rfl

theorem subarray_middle (front mid back : List UInt8) :
    subarray (front ++ (mid ++ back)) front.length (front.length + mid.length) = mid := by
  rw [subarray, List.take_length_add_append, List.drop_left, List.take_left]

theorem toNat_toUInt8 {n : Nat} (h : n < 0x100) : n.toUInt8.toNat = n := Nat.mod_eq_of_lt h

theorem derPair {R S : List UInt8} (hR : R.length ≤ 33) (hS : S.length ≤ 33) :
    derTagged 0x30 (derTagged 0x02 R ++ derTagged 0x02 S) =
      [0x30, (R.length + S.length + 4).toUInt8, 0x02, R.length.toUInt8] ++
        (R ++ ([0x02, S.length.toUInt8] ++ S)) := by
  have hlen : (0x02 :: R.length.toUInt8 :: R ++ 0x02 :: S.length.toUInt8 :: S).length =
      R.length + S.length + 4 := by
    simp only [List.length_append, List.length_cons]
    omega
  rw [derTagged_short 0x02 (by omega), derTagged_short 0x02 (by omega),
    derTagged_short 0x30 (by omega), hlen]
  simp

/-- The two integers are found where they are. -/
theorem parts_derPair {R S : List UInt8} (hR : R.length ≤ 33) (hS : S.length ≤ 33) :
    rBytesOf (derTagged 0x30 (derTagged 0x02 R ++ derTagged 0x02 S)) = R ∧
      sBytesOf (derTagged 0x30 (derTagged 0x02 R ++ derTagged 0x02 S)) = S := by
  rw [derPair hR hS]
  generalize hder : [0x30, (R.length + S.length + 4).toUInt8, 0x02, R.length.toUInt8] ++
    (R ++ ([0x02, S.length.toUInt8] ++ S)) = der
  have hoffset : offsetOf der = 2 := by
    refine if_neg fun hlong => ?_
    rw [← hder] at hlong
    have hlen := congrArg UInt8.toNat (Option.some.inj hlong)
    rw [toNat_toUInt8 (by omega)] at hlen
    have hlong : (0x81 : UInt8).toNat = 0x81 := rfl
    omega
  have hrLen : rLenOf der = R.length := by
    rw [rLenOf, hoffset, ← hder]
    exact toNat_toUInt8 (by omega)
  have hsOffset : sOffsetOf der = 4 + R.length := by rw [sOffsetOf, hoffset, hrLen]
  have hback : der = ([0x30, (R.length + S.length + 4).toUInt8, 0x02, R.length.toUInt8] ++ R ++
      [0x02, S.length.toUInt8]) ++ (S ++ []) := by
    rw [← hder]
    simp
  have hlength : ([0x30, (R.length + S.length + 4).toUInt8, 0x02, R.length.toUInt8] ++ R ++
      [0x02, S.length.toUInt8]).length = 4 + R.length + 2 := by
    rw [List.length_append, List.length_append]
    rfl
  have hsLen : (der[sOffsetOf der + 1]?.getD 0).toNat = S.length := by
    have hat : der[sOffsetOf der + 1]? = some S.length.toUInt8 := by
      rw [hsOffset, hback, List.getElem?_append_left (by rw [hlength]; omega),
        List.getElem?_append_right (by rw [List.length_append]; exact Nat.le_succ _)]
      have hindex : 4 + R.length + 1 - ([0x30, (R.length + S.length + 4).toUInt8, 0x02,
          R.length.toUInt8] ++ R).length = 1 := by
        rw [List.length_append]
        exact Nat.add_sub_cancel_left _ 1
      rw [hindex]
      rfl
    rw [hat]
    exact toNat_toUInt8 (by omega)
  constructor
  · rw [rBytesOf, hoffset, hrLen, ← hder]
    exact subarray_middle _ _ _
  · rw [sBytesOf, hsLen, hsOffset, hback, ← hlength]
    exact subarray_middle _ _ _

/-- A signature's encoding is undone, and nothing throws on any other bytes. -/
theorem derToRaw_signatures :
    (∀ r s : Nat, 0 < r → r < 2 ^ 256 → 0 < s → s < 2 ^ 256 →
      derToRaw (derSignature r s) = some (bytes32 r ++ bytes32 s)) ∧
    ∀ der : List UInt8, ∃ raw, derToRaw der = some raw ∧ raw.length = 64 := by
  refine ⟨fun r s hr hr' hs hs' => ?_, fun der => ⟨_, derToRaw_eq der, ?_⟩⟩
  · obtain ⟨hfirst, hsecond⟩ := parts_derPair (length_integerContent hr hr')
      (length_integerContent hs hs')
    rw [derSignature, derToRaw_eq, hfirst, hsecond, padded_integerContent hr hr',
      padded_integerContent hs hs']
  · rw [List.length_append, length_padded (length_lastBytes _), length_padded (length_lastBytes _)]

/-- A sign byte in front of the first integer, one byte for the second. -/
theorem derToRaw_signatures_two :
    derToRaw (derSignature (2 ^ 255) 1) = some (bytes32 (2 ^ 255) ++ bytes32 1) :=
  derToRaw_signatures.1 _ _ (by decide) (by decide) (by decide) (by decide)

end CleanStack.ApiToken
