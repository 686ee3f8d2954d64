import Mathlib.Logic.Function.Iterate

/-!
# Cyclic redundancy checks

A reflected check is a register that is shifted down one place for each bit of
the message, with the polynomial added when a one falls out. A polynomial whose
highest bit is set marks that this happened: the bit that fell out can be read
off the result, so a shift forgets nothing. Messages that differ in one byte
therefore leave different registers, whatever comes before and behind it.
-/

namespace CleanStack.Lib

variable {w : Nat}

def shiftOut (poly r : BitVec w) : BitVec w :=
  r >>> 1 ^^^ if r.getLsbD 0 then poly else 0#w

/-- The lowest bit, which fell out, is the highest bit of the result. -/
theorem msb_shiftOut {poly : BitVec w} (hpoly : poly.msb = true) (r : BitVec w) :
    (shiftOut poly r).msb = r.getLsbD 0 := by
  have hshift : (r >>> 1).msb = false := by simp [BitVec.msb_ushiftRight]
  rw [shiftOut, BitVec.msb_xor, hshift, Bool.false_xor]
  cases r.getLsbD 0 <;> simp [hpoly]

theorem shiftOut_injective {poly : BitVec w} (hpoly : poly.msb = true) :
    Function.Injective (shiftOut poly) := by
  intro r s h
  have hlow : r.getLsbD 0 = s.getLsbD 0 := by
    rw [← msb_shiftOut hpoly r, ← msb_shiftOut hpoly s, h]
  have hhigh : r >>> 1 = s >>> 1 := by
    rw [shiftOut, shiftOut, hlow] at h
    exact BitVec.xor_left_inj _ |>.1 h
  refine BitVec.eq_of_getLsbD_eq fun i _ => ?_
  cases i with
  | zero => exact hlow
  | succ i =>
      have := congrArg (BitVec.getLsbD · i) hhigh
      simpa [BitVec.getLsbD_ushiftRight, Nat.add_comm] using this

/-- One byte: it is added to the low end and shifted out. -/
def feed (poly r : BitVec w) (byte : BitVec 8) : BitVec w :=
  (shiftOut poly)^[8] (r ^^^ byte.setWidth w)

theorem feed_injective {poly : BitVec w} (hpoly : poly.msb = true) (byte : BitVec 8) :
    Function.Injective (feed poly · byte) := by
  intro r s h
  exact BitVec.xor_left_inj _ |>.1 ((shiftOut_injective hpoly).iterate 8 h)

theorem feed_byte_injective {poly : BitVec w} (hpoly : poly.msb = true) (hw : 8 ≤ w)
    (r : BitVec w) : Function.Injective (feed poly r) := by
  intro a b h
  have hwide : a.setWidth w = b.setWidth w :=
    BitVec.xor_right_inj _ |>.1 ((shiftOut_injective hpoly).iterate 8 h)
  have hback := congrArg (BitVec.setWidth 8) hwide
  rwa [BitVec.setWidth_setWidth_of_le _ hw, BitVec.setWidth_setWidth_of_le _ hw,
    BitVec.setWidth_eq, BitVec.setWidth_eq] at hback

theorem foldl_feed_injective {poly : BitVec w} (hpoly : poly.msb = true)
    (bytes : List (BitVec 8)) : Function.Injective (bytes.foldl (feed poly)) := by
  induction bytes with
  | nil => exact fun _ _ h => h
  | cons b bytes ih =>
      intro r s h
      exact feed_injective hpoly b (ih h)

def crc (poly init final : BitVec w) (bytes : List (BitVec 8)) : BitVec w :=
  bytes.foldl (feed poly) init ^^^ final

/-- A check notices a change of one byte. -/
theorem crc_ne_of_byte {poly init final : BitVec w} (hpoly : poly.msb = true) (hw : 8 ≤ w)
    {b b' : BitVec 8} (hne : b ≠ b') (xs ys : List (BitVec 8)) :
    crc poly init final (xs ++ b :: ys) ≠ crc poly init final (xs ++ b' :: ys) := by
  intro h
  have hfold := BitVec.xor_left_inj _ |>.1 h
  rw [List.foldl_append, List.foldl_append, List.foldl_cons, List.foldl_cons] at hfold
  exact hne (feed_byte_injective hpoly hw _ (foldl_feed_injective hpoly ys hfold))

end CleanStack.Lib
