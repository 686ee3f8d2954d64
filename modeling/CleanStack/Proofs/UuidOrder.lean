import CleanStack.Kit.Uuid
import CleanStack.Lib.Digits
import Mathlib.Algebra.Group.Int.Defs

/-!
# Identifiers come in the order they are made

An identifier is three numbers written out in hexadecimal, each with as many digits
as it can need: the timestamp, the bits above the variant and the bits below, behind
the variant's own. Between two calls either the timestamp grows or it stays and the
random number grows by one, and both show in the text at the place of the number
that grew, since everything before that place is the same.
-/

namespace CleanStack.Kit

open CleanStack.Lib

/-! ## Texts by their code units -/

/-- What `a < b` compares, in texts without surrogates. -/
def UnitLt (c d : Char) : Prop := c.toNat < d.toNat

theorem utf16Units_ofList {t : List Char} (h : ∀ c ∈ t, c.toNat < 0x10000) :
    utf16Units (String.ofList t) = t.map Char.toNat := by
  rw [utf16Units, String.toList_ofList]
  induction t with
  | nil => rfl
  | cons c cs ih =>
    rw [List.flatMap_cons, if_pos (h c List.mem_cons_self), List.map_cons,
      ih fun d hd => h d (List.mem_cons_of_mem _ hd)]
    rfl

theorem unitsLe_of_lex {x y : List Char} (h : List.Lex UnitLt x y) :
    unitsLe (y.map Char.toNat) (x.map Char.toNat) = false := by
  induction h with
  | nil => rfl
  | rel h =>
    have hle := Nat.le_of_lt h
    simp [unitsLe, h.ne', Nat.not_lt.2 hle]
  | cons _ ih => simp [unitsLe, ih]

theorem stringLt_of_lex {x y : List Char} (hx : ∀ c ∈ x, c.toNat < 0x10000)
    (hy : ∀ c ∈ y, c.toNat < 0x10000) (h : List.Lex UnitLt x y) :
    stringLt (String.ofList x) (String.ofList y) = true := by
  rw [stringLt, stringLe, utf16Units_ofList hx, utf16Units_ofList hy, unitsLe_of_lex h]
  rfl

/-! ## Hexadecimal -/

def isHex (c : Char) : Bool := ('0' ≤ c && c ≤ '9') || ('a' ≤ c && c ≤ 'f')

/-- `n` with `k` digits. -/
def hexOf (k n : Nat) : List Char := digitsOf Nat.digitChar 16 k n

theorem isHex_hexOf (k n : Nat) : ∀ c ∈ hexOf k n, isHex c = true :=
  forall_digitsOf (by decide) (by decide) k n

theorem digitChar_lt (d e : Nat) (hde : d < e) (he : e < 16) :
    UnitLt (Nat.digitChar d) (Nat.digitChar e) := by
  have hall : ∀ e < 16, ∀ d < e, (Nat.digitChar d).toNat < (Nat.digitChar e).toNat := by decide
  exact hall e he d hde

theorem padStart_concat (k : Nat) (fill c : Char) (t : List Char) :
    padStart (k + 1) fill (t ++ [c]) = padStart k fill t ++ [c] := by
  rw [padStart, padStart, List.length_append, List.length_singleton, Nat.add_sub_add_right,
    List.append_assoc]

theorem padStart_toDigits {k n : Nat} (h : n < 16 ^ (k + 1)) :
    padStart (k + 1) '0' (Nat.toDigits 16 n) = hexOf (k + 1) n := by
  induction k generalizing n with
  | zero =>
    rw [Nat.toDigits_of_lt_base (by simpa using h)]
    simp [hexOf, digitsOf, padStart, Nat.mod_eq_of_lt (show n < 16 by simpa using h)]
  | succ k ih =>
    rw [hexOf, digitsOf]
    rcases Nat.lt_or_ge n 16 with hlt | hge
    · rw [Nat.toDigits_of_lt_base hlt, Nat.div_eq_of_lt hlt, Nat.mod_eq_of_lt hlt, digitsOf_zero]
      rfl
    · have hhigh : n / 16 < 16 ^ (k + 1) := Nat.div_lt_of_lt_mul (by rwa [Nat.mul_comm, ← Nat.pow_succ])
      rw [Nat.toDigits_of_base_le (by decide) hge, padStart_concat, ih hhigh, hexOf]

/-- A number that has all its digits is padded with none. -/
theorem toDigits_eq {k n : Nat} (hlow : 16 ^ k ≤ n) (h : n < 16 ^ (k + 1)) :
    Nat.toDigits 16 n = hexOf (k + 1) n := by
  rw [← padStart_toDigits h, padStart, Nat.sub_eq_zero_of_le, List.replicate_zero, List.nil_append]
  by_contra hshort
  cases k with
  | zero => exact hshort Nat.length_toDigits_pos
  | succ k =>
    have hle := (Nat.length_toDigits_le_iff (b := 16) (n := n) (by decide) k.succ_pos).1 (by omega)
    omega

/-! ## The text of an identifier -/

/-- The three numbers of an identifier, written out. -/
def uuidText (timestamp randA randB : Nat) : List Char :=
  ((hexOf 12 timestamp).take 8 ++ (['-'] ++ (hexOf 12 timestamp).drop 8)) ++
    (['-', '7'] ++ (hexOf 3 randA ++
      (['-'] ++ ((hexOf 16 randB).take 4 ++ (['-'] ++ (hexOf 16 randB).drop 4)))))

/-- The number behind the variant bits. -/
def randB (random : Nat) : Nat := 2 ^ 63 + random % 2 ^ 62

theorem variant_or (random : Nat) :
    VARIANT_BITS ||| (random &&& RAND_B_MASK) = randB random := by
  have hmask : RAND_B_MASK = 2 ^ 62 - 1 := by decide
  have hvariant : VARIANT_BITS = 2 ^ 62 * 2 := by decide
  have hdouble : (2 : Nat) ^ 63 = 2 ^ 62 * 2 := by decide
  rw [randB, hdouble, hmask, hvariant, Nat.and_two_pow_sub_one_eq_mod,
    ← Nat.two_pow_add_eq_or_of_lt (Nat.mod_lt _ (by decide))]

theorem randB_bounds (random : Nat) : 16 ^ 15 ≤ randB random ∧ randB random < 16 ^ 16 := by
  have hlow : random % 2 ^ 62 < 2 ^ 62 := Nat.mod_lt _ (by decide)
  unfold randB
  omega

theorem toList_formatUuid {s : UuidState} {timestamp : Nat} (hts : s.lastTimestamp = timestamp)
    (hlow : timestamp < 2 ^ 48) (hrandom : s.lastRandom < 2 ^ 74) :
    (formatUuid s).toList =
      uuidText timestamp (s.lastRandom / 2 ^ 62) (randB s.lastRandom) := by
  have htimestamp : padStart 12 '0' (hexText s.lastTimestamp) = hexOf 12 timestamp := by
    rw [hts]
    exact padStart_toDigits (k := 11) (by omega)
  have hA : padStart 3 '0' (hexText (s.lastRandom >>> RAND_B_BITS : Nat)) =
      hexOf 3 (s.lastRandom / 2 ^ 62) := by
    rw [Nat.shiftRight_eq_div_pow]
    exact padStart_toDigits (k := 2) (Nat.div_lt_of_lt_mul hrandom)
  have hB : hexText (VARIANT_BITS ||| (s.lastRandom &&& RAND_B_MASK) : Nat) =
      hexOf 16 (randB s.lastRandom) := by
    rw [variant_or]
    exact toDigits_eq (k := 15) (randB_bounds _).1 (randB_bounds _).2
  have hlen : ∀ k n, (hexOf k n).length = k := length_digitsOf Nat.digitChar 16
  simp only [formatUuid, htimestamp, hA, hB, String.toList_ofList, slice, separated]
  rw [List.take_of_length_le (hlen 12 _).le, List.take_of_length_le (hlen 16 _).le]
  simp [uuidText]

/-! ## Order -/

theorem length_hexOf (k m n : Nat) : (hexOf k m).length = (hexOf k n).length := by
  rw [hexOf, hexOf, length_digitsOf, length_digitsOf]

theorem lex_hexOf {k m n : Nat} (hmn : m < n) (hn : n < 16 ^ k) :
    List.Lex UnitLt (hexOf k m) (hexOf k n) :=
  lex_digitsOf (by decide) digitChar_lt hmn hn

theorem lex_timestamp {t t' : Nat} (h : t < t') (h' : t' < 2 ^ 48) (a a' b b' : Nat) :
    List.Lex UnitLt (uuidText t a b) (uuidText t' a' b') := by
  have hnumber := lex_hexOf (k := 12) h (by omega)
  refine lex_append (lex_insert hnumber (length_hexOf ..) _ 8) ?_ _ _
  simp [length_hexOf 12 t t']

theorem lex_randA {a a' : Nat} (t : Nat) (h : a < a') (h' : a' < 2 ^ 12) (b b' : Nat) :
    List.Lex UnitLt (uuidText t a b) (uuidText t a' b') := by
  have hnumber := lex_hexOf (k := 3) h (by omega)
  refine List.Lex.append_left _ (List.Lex.append_left _ ?_ _) _
  exact lex_append hnumber (length_hexOf ..) _ _

theorem lex_randB {b b' : Nat} (t a : Nat) (h : b < b') (h' : b' < 16 ^ 16) :
    List.Lex UnitLt (uuidText t a b) (uuidText t a b') := by
  have hnumber := lex_hexOf (k := 16) h h'
  refine List.Lex.append_left _ (List.Lex.append_left _ (List.Lex.append_left _ ?_ _) _) _
  exact List.Lex.append_left _ (lex_insert hnumber (length_hexOf ..) _ 4) _

/-- The random number is in order with its two parts. -/
theorem lex_random {r r' : Nat} (t : Nat) (h : r < r') (h' : r' < 2 ^ 74) :
    List.Lex UnitLt (uuidText t (r / 2 ^ 62) (randB r)) (uuidText t (r' / 2 ^ 62) (randB r')) := by
  rcases Nat.lt_or_eq_of_le (Nat.div_le_div_right (c := 2 ^ 62) h.le) with hlt | heq
  · exact lex_randA t hlt (Nat.div_lt_of_lt_mul h') _ _
  · rw [heq]
    refine lex_randB t _ ?_ (randB_bounds r').2
    unfold randB
    omega

/-- Made from `s` before anything is made from `s'`. -/
def Before (s s' : UuidState) : Prop :=
  s.lastTimestamp < s'.lastTimestamp ∨
    s.lastTimestamp = s'.lastTimestamp ∧ s.lastRandom < s'.lastRandom

theorem Before.trans {a b c : UuidState} (h : Before a b) (h' : Before b c) : Before a c := by
  unfold Before at *
  omega

/-- A state an identifier is written from. -/
structure Writable (s : UuidState) : Prop where
  timestamp : 0 ≤ s.lastTimestamp
  random : s.lastRandom < 2 ^ 74

theorem Writable.text {s : UuidState} (h : Writable s) (hlow : s.lastTimestamp < 2 ^ 48) :
    (formatUuid s).toList =
      uuidText s.lastTimestamp.toNat (s.lastRandom / 2 ^ 62) (randB s.lastRandom) := by
  have hts := h.timestamp
  exact toList_formatUuid (by omega) (by omega) h.random

theorem units_uuidText (t a b : Nat) : ∀ c ∈ uuidText t a b, c.toNat < 0x10000 := by
  have hhex : ∀ k n, ∀ c ∈ hexOf k n, c.toNat < 0x10000 :=
    forall_digitsOf (by decide) (by decide)
  have htake : ∀ k n i, ∀ c ∈ (hexOf k n).take i, c.toNat < 0x10000 :=
    fun k n i c hc => hhex k n c (List.mem_of_mem_take hc)
  have hdrop : ∀ k n i, ∀ c ∈ (hexOf k n).drop i, c.toNat < 0x10000 :=
    fun k n i c hc => hhex k n c (List.mem_of_mem_drop hc)
  intro c hc
  simp only [uuidText, List.mem_append, List.mem_cons, List.not_mem_nil, or_false] at hc
  rcases hc with (hc | rfl | hc) | (rfl | rfl) | hc | rfl | hc | rfl | hc
  · exact htake _ _ _ c hc
  · decide
  · exact hdrop _ _ _ c hc
  · decide
  · decide
  · exact hhex _ _ c hc
  · decide
  · exact htake _ _ _ c hc
  · decide
  · exact hdrop _ _ _ c hc

theorem stringLt_formatUuid {s s' : UuidState} (hs : Writable s) (hs' : Writable s')
    (hlow : s'.lastTimestamp < 2 ^ 48) (h : Before s s') :
    stringLt (formatUuid s) (formatUuid s') = true := by
  have hts := hs.timestamp
  have hts' := hs'.timestamp
  have hle : s.lastTimestamp ≤ s'.lastTimestamp := by
    unfold Before at h
    omega
  rw [← String.ofList_toList (s := formatUuid s), ← String.ofList_toList (s := formatUuid s'),
    hs.text (by omega), hs'.text hlow]
  refine stringLt_of_lex (units_uuidText _ _ _) (units_uuidText _ _ _) ?_
  rcases h with h | ⟨heq, hrandom⟩
  · exact lex_timestamp (by omega) (by omega) _ _ _ _
  · rw [heq]
    exact lex_random _ hrandom hs'.random

/-! ## Shape -/

/-- Version 7 and variant 10, a character at a time. -/
def uuidV7Shape : List (Char → Bool) :=
  List.replicate 8 isHex ++ [(· == '-')] ++ List.replicate 4 isHex ++ [(· == '-'), (· == '7')] ++
    List.replicate 3 isHex ++ [(· == '-'), fun c => "89ab".toList.contains c] ++
    List.replicate 3 isHex ++ [(· == '-')] ++ List.replicate 12 isHex

def IsUuidV7 (id : String) : Prop := List.Forall₂ (fun shape c => shape c = true) uuidV7Shape id.toList

theorem shaped_replicate {p : Char → Bool} {t : List Char} (h : ∀ c ∈ t, p c = true) :
    List.Forall₂ (fun shape c => shape c = true) (List.replicate t.length p) t := by
  induction t with
  | nil => exact .nil
  | cons c t ih =>
    exact .cons (h c List.mem_cons_self) (ih fun d hd => h d (List.mem_cons_of_mem _ hd))

theorem shaped_take {k n i : Nat} (hi : i ≤ k) :
    List.Forall₂ (fun shape c => shape c = true) (List.replicate i isHex) ((hexOf k n).take i) := by
  have hshape := shaped_replicate fun c (hc : c ∈ (hexOf k n).take i) =>
    isHex_hexOf k n c (List.mem_of_mem_take hc)
  rwa [List.length_take, hexOf, length_digitsOf, Nat.min_eq_left hi] at hshape

theorem shaped_drop {k n i : Nat} :
    List.Forall₂ (fun shape c => shape c = true) (List.replicate (k - i) isHex)
      ((hexOf k n).drop i) := by
  have hshape := shaped_replicate fun c (hc : c ∈ (hexOf k n).drop i) =>
    isHex_hexOf k n c (List.mem_of_mem_drop hc)
  rwa [List.length_drop, hexOf, length_digitsOf] at hshape

/-- The digit the variant is in. -/
theorem variant_digit (random : Nat) :
    ("89ab".toList.contains (Nat.digitChar (randB random / 16 ^ 15 % 16))) = true := by
  have hlow : random % 2 ^ 62 < 2 ^ 62 := Nat.mod_lt _ (by decide)
  have hdigit : 8 ≤ randB random / 16 ^ 15 % 16 ∧ randB random / 16 ^ 15 % 16 < 12 := by
    unfold randB
    omega
  have hall : ∀ d < 12, 8 ≤ d → ("89ab".toList.contains (Nat.digitChar d)) = true := by decide
  exact hall _ hdigit.2 hdigit.1

theorem isUuidV7_formatUuid {s : UuidState} (h : Writable s) (hlow : s.lastTimestamp < 2 ^ 48) :
    IsUuidV7 (formatUuid s) := by
  rw [IsUuidV7, h.text hlow, uuidText]
  have hB : ∀ n, hexOf 16 n = Nat.digitChar (n / 16 ^ 15 % 16) :: hexOf 15 n :=
    digitsOf_cons Nat.digitChar 16 15
  have hA : (hexOf 3 (s.lastRandom / 2 ^ 62)).take 3 = hexOf 3 (s.lastRandom / 2 ^ 62) :=
    List.take_of_length_le (length_digitsOf ..).le
  have hlast : ∀ k i j n, k - i = j → List.Forall₂ (fun shape c => shape c = true)
      (List.replicate j isHex) ((hexOf k n).drop i) := fun k i j n hj => hj ▸ shaped_drop
  rw [hB, ← hA]
  simp only [uuidV7Shape, List.append_assoc, List.take_succ_cons, List.drop_succ_cons,
    List.cons_append, List.nil_append]
  refine List.rel_append (shaped_take (by decide)) (.cons rfl ?_)
  refine List.rel_append (hlast 12 8 4 _ rfl) (.cons rfl (.cons rfl ?_))
  refine List.rel_append (shaped_take (by decide)) (.cons rfl (.cons (variant_digit _) ?_))
  exact List.rel_append (shaped_take (by decide)) (.cons rfl (hlast 15 3 12 _ rfl))

/-! ## Calls -/

theorem freshRandom_lt (bytes : Vector UInt8 10) : freshRandom bytes < 2 ^ 74 := by
  have hmax : RANDOM_MAX < 2 ^ 74 := by decide
  exact Nat.lt_of_le_of_lt Nat.and_le_right hmax

/-- What holds before every call. -/
structure Ready (s : UuidState) : Prop where
  timestamp : -1 ≤ s.lastTimestamp
  random : s.lastRandom < 2 ^ 74

theorem Writable.ready {s : UuidState} (h : Writable s) : Ready s :=
  ⟨by have hts := h.timestamp; omega, h.random⟩

theorem ready_loaded : Ready .loaded := ⟨by decide, by decide⟩

theorem writable_advance {s : UuidState} {call : UuidCall} (h : Ready s) (hnow : 0 ≤ call.now) :
    Writable (advanceMonotonicState s call) := by
  have hts := h.timestamp
  unfold advanceMonotonicState
  split_ifs with hlater hmore
  · exact ⟨hnow, freshRandom_lt _⟩
  · refine ⟨show 0 ≤ s.lastTimestamp by omega, ?_⟩
    have hmax : RANDOM_MAX + 1 = 2 ^ 74 := by decide
    show s.lastRandom + 1 < 2 ^ 74
    omega
  · exact ⟨show 0 ≤ s.lastTimestamp + 1 by omega, freshRandom_lt _⟩

theorem before_advance (s : UuidState) (call : UuidCall) :
    Before s (advanceMonotonicState s call) := by
  unfold advanceMonotonicState
  split_ifs with hlater hmore
  · exact .inl hlater
  · exact .inr ⟨rfl, Nat.lt_succ_self _⟩
  · exact .inl (Int.lt_succ _)

theorem lastTimestamp_uuids (s : UuidState) (calls : List UuidCall) :
    s.lastTimestamp ≤ (uuids s calls).2.lastTimestamp := by
  induction calls generalizing s with
  | nil => exact le_rfl
  | cons call calls ih =>
    refine Int.le_trans ?_ (ih (advanceMonotonicState s call))
    have hbefore := before_advance s call
    unfold Before at hbefore
    omega

/-- Everything made from `s` on is written from a state that comes after `s`. -/
theorem mem_uuids {s : UuidState} {calls : List UuidCall} (h : Ready s)
    (hclock : ∀ call ∈ calls, 0 ≤ call.now) {id : String} (hid : id ∈ (uuids s calls).1) :
    ∃ s', Writable s' ∧ Before s s' ∧ s'.lastTimestamp ≤ (uuids s calls).2.lastTimestamp ∧
      id = formatUuid s' := by
  induction calls generalizing s with
  | nil => cases hid
  | cons call calls ih =>
    have hwrites := writable_advance h (hclock call List.mem_cons_self)
    have hbefore := before_advance s call
    rcases List.mem_cons.1 hid with rfl | hid
    · exact ⟨_, hwrites, hbefore, lastTimestamp_uuids _ calls, rfl⟩
    · obtain ⟨s', hwrites', hafter, hlast, heq⟩ :=
        ih hwrites.ready (fun c hc => hclock c (List.mem_cons_of_mem _ hc)) hid
      exact ⟨s', hwrites', hbefore.trans hafter, hlast, heq⟩

theorem pairwise_uuids {s : UuidState} {calls : List UuidCall} (h : Ready s)
    (hclock : ∀ call ∈ calls, 0 ≤ call.now) (hlow : (uuids s calls).2.lastTimestamp < 2 ^ 48) :
    (uuids s calls).1.Pairwise fun earlier later => stringLt earlier later = true := by
  induction calls generalizing s with
  | nil => exact .nil
  | cons call calls ih =>
    have hwrites := writable_advance h (hclock call List.mem_cons_self)
    have hrest : ∀ c ∈ calls, 0 ≤ c.now := fun c hc => hclock c (List.mem_cons_of_mem _ hc)
    refine List.pairwise_cons.2 ⟨fun id hid => ?_, ih hwrites.ready hrest hlow⟩
    obtain ⟨s', hwrites', hafter, hlast, rfl⟩ := mem_uuids hwrites.ready hrest hid
    exact stringLt_formatUuid hwrites hwrites' (Int.lt_of_le_of_lt hlast hlow) hafter

/-- While the timestamp fits its 48 bits, whatever the clock and the random bytes. -/
theorem uuidv7_ascends (calls : List UuidCall) (hclock : ∀ call ∈ calls, 0 ≤ call.now)
    (hlow : (uuids .loaded calls).2.lastTimestamp < 2 ^ 48) :
    (∀ id ∈ (uuids .loaded calls).1, IsUuidV7 id) ∧
      (uuids .loaded calls).1.Pairwise fun earlier later => stringLt earlier later = true := by
  refine ⟨fun id hid => ?_, pairwise_uuids ready_loaded hclock hlow⟩
  obtain ⟨s', hwrites, -, hlast, rfl⟩ := mem_uuids ready_loaded hclock hid
  exact isUuidV7_formatUuid hwrites (Int.lt_of_le_of_lt hlast hlow)

/-- All bits set, then the clock gone back, then standing still. -/
theorem uuidv7_ascends_three :
    (uuids .loaded [⟨1800000000000, Vector.replicate 10 255⟩, ⟨1799999999000, Vector.replicate 10 0⟩,
      ⟨1799999999000, Vector.replicate 10 7⟩]).1.Pairwise
        fun earlier later => stringLt earlier later = true :=
  (uuidv7_ascends _ (List.forall_mem_cons.2 ⟨by decide, List.forall_mem_cons.2 ⟨by decide,
    List.forall_mem_cons.2 ⟨by decide, fun _ h => by cases h⟩⟩⟩) (by decide)).2

end CleanStack.Kit
