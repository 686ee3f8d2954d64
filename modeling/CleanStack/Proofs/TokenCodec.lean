import CleanStack.ApiToken.Codec
import Mathlib.Algebra.Group.Nat.Defs
import Mathlib.Data.List.Infix
import Mathlib.Data.List.Nodup

/-!
# Tokens are read back, and slips are noticed

The body is the first 44 accepted bytes of the stream, digit by digit. All
digits are ASCII, so a character of the body is one byte of what the checksum is
taken of: the CRC of another byte is another CRC, and six digits are enough to
tell any two apart.
-/

namespace CleanStack.ApiToken

open CleanStack.Kit CleanStack.Lib

/-! ## Digits -/

def InAlphabet (s : JsString) : Prop := ∀ u ∈ s, u ∈ BASE58_ALPHABET

theorem alphabet_size : ALPHABET_SIZE = 58 := by
  decide

theorem alphabet_nodup : BASE58_ALPHABET.Nodup := by
  decide

theorem alphabet_ascii : ∀ u ∈ BASE58_ALPHABET, u.toNat < 0x80 := by
  -- over the list: the bounded quantifier may be decided over all units
  have hall : BASE58_ALPHABET.all (fun u => u.toNat < 0x80) = true := by decide
  simpa using List.all_eq_true.1 hall

theorem InAlphabet.isAscii {s : JsString} (h : InAlphabet s) : IsAscii s :=
  fun u hu => alphabet_ascii u (h u hu)

theorem inAlphabet_append {s t : JsString} :
    InAlphabet (s ++ t) ↔ InAlphabet s ∧ InAlphabet t := by
  simp only [InAlphabet, List.mem_append, or_imp, forall_and]

theorem digit_index (n : Nat) : n % ALPHABET_SIZE < BASE58_ALPHABET.length :=
  Nat.mod_lt n (by rw [alphabet_size]; decide)

theorem digit_eq (n : Nat) :
    digit n = BASE58_ALPHABET.get ⟨n % ALPHABET_SIZE, digit_index n⟩ := by
  simp [digit, List.getElem?_eq_getElem (digit_index n)]

theorem digit_mem (n : Nat) : digit n ∈ BASE58_ALPHABET := by
  rw [digit_eq]
  exact List.get_mem _ _

theorem digit_inj {m n : Nat} (h : digit m = digit n) : m % ALPHABET_SIZE = n % ALPHABET_SIZE := by
  rw [digit_eq, digit_eq] at h
  exact congrArg Fin.val (List.nodup_iff_injective_get.1 alphabet_nodup h)

/-! ## Checksums -/

theorem base58Loop_append (length n : Nat) (out : JsString) :
    base58Loop length n out = base58Loop length n [] ++ out := by
  induction length generalizing n out with
  | zero => rfl
  | succ i ih =>
      rw [base58Loop, ih, base58Loop, ih _ [digit n], List.append_assoc, List.singleton_append]

theorem base58Loop_succ (i n : Nat) :
    base58Loop (i + 1) n [] = base58Loop i (n / ALPHABET_SIZE) [] ++ [digit n] := by
  rw [base58Loop, base58Loop_append]

theorem base58Loop_length (length n : Nat) : (base58Loop length n []).length = length := by
  induction length generalizing n with
  | zero => rfl
  | succ i ih => rw [base58Loop_succ, List.length_append, ih, List.length_singleton]

theorem base58Loop_inAlphabet (length n : Nat) : InAlphabet (base58Loop length n []) := by
  induction length generalizing n with
  | zero => exact fun u hu => absurd hu List.not_mem_nil
  | succ i ih =>
      rw [base58Loop_succ, inAlphabet_append]
      refine ⟨ih _, fun u hu => ?_⟩
      obtain rfl := List.mem_singleton.1 hu
      exact digit_mem n

/-- Numbers below the power that is written with as many digits are told apart. -/
theorem base58Loop_inj {length m n : Nat} (hm : m < ALPHABET_SIZE ^ length)
    (hn : n < ALPHABET_SIZE ^ length) (h : base58Loop length m [] = base58Loop length n []) :
    m = n := by
  induction length generalizing m n with
  | zero =>
      rw [Nat.pow_zero] at hm hn
      omega
  | succ i ih =>
      rw [base58Loop_succ, base58Loop_succ] at h
      obtain ⟨hhigh, hlow⟩ := List.append_inj' h rfl
      rw [Nat.pow_succ] at hm hn
      have hdiv := ih (Nat.div_lt_of_lt_mul (Nat.mul_comm _ _ ▸ hm))
        (Nat.div_lt_of_lt_mul (Nat.mul_comm _ _ ▸ hn)) hhigh
      have hmod := digit_inj (List.cons.inj hlow).1
      rw [← Nat.div_add_mod m ALPHABET_SIZE, ← Nat.div_add_mod n ALPHABET_SIZE, hdiv, hmod]

theorem checksumOf_length (payload : JsString) : (checksumOf payload).length = 6 :=
  base58Loop_length 6 _

theorem checksumOf_inAlphabet (payload : JsString) : InAlphabet (checksumOf payload) :=
  base58Loop_inAlphabet 6 _

/-- Six digits hold every 32-bit value. -/
theorem checksumOf_inj {p q : JsString} (h : checksumOf p = checksumOf q) : crc32 p = crc32 q := by
  have hpow : 2 ^ 32 < ALPHABET_SIZE ^ 6 := by
    rw [alphabet_size]
    decide
  have hp := (crc32 p).isLt
  have hq := (crc32 q).isLt
  rw [checksumOf, checksumOf, toBase58Fixed, toBase58Fixed, Nat.mod_eq_of_lt hp,
    Nat.mod_eq_of_lt hq] at h
  exact BitVec.eq_of_toNat_eq
    (base58Loop_inj (Nat.lt_trans hp hpow) (Nat.lt_trans hq hpow) h)

/-- Another character of the body is another checksum. -/
theorem checksumOf_ne {pre left right : JsString} {u v : CodeUnit} (hne : u ≠ v)
    (hu : InAlphabet (left ++ u :: right)) (hv : InAlphabet (left ++ v :: right)) :
    checksumOf (pre ++ (left ++ u :: right)) ≠ checksumOf (pre ++ (left ++ v :: right)) := by
  intro h
  have hcrc := checksumOf_inj h
  rw [crc32, crc32, utf8_append_ascii hu.isAscii, utf8_append_ascii hv.isAscii, List.map_append,
    List.map_append, List.map_cons, List.map_cons, ← List.append_assoc, ← List.append_assoc] at hcrc
  have hbyte : asciiByte u ≠ asciiByte v := fun heq =>
    hne (asciiByte_inj (hu.isAscii u (by simp)) (hv.isAscii v (by simp)) heq)
  exact crc_ne_of_byte (by decide) (by decide) hbyte _ _ hcrc

/-! ## Reading -/

theorem flatten_codePoints (s : JsString) : (codePoints s).flatten = s := by
  induction s using codePoints.induct with
  | case1 => rfl
  | case2 u => rfl
  | case3 u v rest hpair ih => rw [codePoints, if_pos hpair, List.flatten_cons, ih]; rfl
  | case4 u v rest hpair ih => rw [codePoints, if_neg hpair, List.flatten_cons, ih]; rfl

/-- Walking over the characters, all are in the alphabet just when all units are. -/
theorem all_includes_iff (s : JsString) :
    (codePoints s).all (includes BASE58_ALPHABET) = true ↔ InAlphabet s := by
  rw [List.all_eq_true]
  constructor
  · intro h u hu
    rw [← flatten_codePoints s] at hu
    obtain ⟨c, hc, huc⟩ := List.mem_flatten.1 hu
    exact (includes_iff.1 (h c hc)).subset huc
  · intro h c hc
    rw [codePoints_ascii h.isAscii] at hc
    obtain ⟨u, hu, rfl⟩ := List.mem_map.1 hc
    exact includes_iff.2 ((List.singleton_infix_iff _ _).2 (h u hu))

/-- The texts that are accepted. -/
def WellFormed (pre raw : JsString) : Prop :=
  ∃ body, body.length = TOKEN_BODY_LENGTH ∧ InAlphabet body ∧
    raw = pre ++ body ++ checksumOf (pre ++ body)

/-- What is looked at behind a prefix that is there. -/
theorem parseToken_append (pre rest : JsString) :
    parseToken (pre ++ rest) pre =
      if rest.length ≠ TOKEN_BODY_LENGTH + TOKEN_CHECKSUM_LENGTH then malformed "unexpected length"
      else if !(codePoints rest).all (includes BASE58_ALPHABET) then
        malformed "non-base58 character"
      else if rest.drop TOKEN_BODY_LENGTH ≠ checksumOf (pre ++ rest.take TOKEN_BODY_LENGTH) then
        malformed "checksum mismatch"
      else .ok (pre ++ rest) := by
  have hprefix : pre.isPrefixOf (pre ++ rest) = true :=
    List.isPrefixOf_iff_prefix.2 (List.prefix_append _ _)
  have hlength : (pre ++ rest).length = pre.length + TOKEN_BODY_LENGTH + TOKEN_CHECKSUM_LENGTH ↔
      rest.length = TOKEN_BODY_LENGTH + TOKEN_CHECKSUM_LENGTH := by
    rw [List.length_append]
    omega
  simp only [parseToken, hprefix, Bool.not_true, Bool.false_eq_true, if_false, ne_eq, hlength,
    List.drop_left, List.drop_length_add_append, List.take_append_drop]

theorem parseToken_eq_ok {raw pre r : JsString} :
    parseToken raw pre = .ok r ↔ r = raw ∧ WellFormed pre raw := by
  constructor
  · intro h
    have hprefix : pre.isPrefixOf raw = true := by
      cases hpre : pre.isPrefixOf raw with
      | true => rfl
      | false => simp [parseToken, hpre, malformed] at h
    obtain ⟨rest, rfl⟩ := List.isPrefixOf_iff_prefix.1 hprefix
    rw [parseToken_append] at h
    split at h
    · cases h
    next hlength =>
    split at h
    · cases h
    next hdigits =>
    split at h
    · cases h
    next hchecksum =>
    cases h
    rw [not_not] at hlength hchecksum
    simp only [Bool.not_eq_true', Bool.not_eq_false, all_includes_iff] at hdigits
    refine ⟨rfl, rest.take TOKEN_BODY_LENGTH, ?_, ?_, ?_⟩
    · rw [List.length_take, hlength]
      decide
    · exact fun u hu => hdigits u (List.mem_of_mem_take hu)
    · rw [← hchecksum, List.append_assoc, List.take_append_drop]
  · rintro ⟨rfl, body, hlength, hbody, rfl⟩
    have hdigits : (codePoints (body ++ checksumOf (pre ++ body))).all
        (includes BASE58_ALPHABET) = true :=
      (all_includes_iff _).2 (inAlphabet_append.2 ⟨hbody, checksumOf_inAlphabet _⟩)
    rw [List.append_assoc, parseToken_append, if_neg, if_neg, if_neg]
    · rw [not_not, ← hlength, List.drop_left, List.take_left]
    · simp [hdigits]
    · rw [not_not, List.length_append, hlength, checksumOf_length]
      rfl

/-! ## Generating -/

def accepted (byte : UInt8) : Bool := byte.toNat < REJECTION_CEILING

/-- The digits of the accepted bytes among the first `n` of the stream. -/
def digitsUpTo (random : Nat → UInt8) (n : Nat) : JsString :=
  ((List.range n).map random |>.filter accepted).map fun byte => digit byte.toNat

theorem appendBytes_eq {length : Nat} (bytes : List UInt8) {out : JsString}
    (h : out.length < length) :
    appendBytes length bytes out =
      (out ++ (bytes.filter accepted).map fun byte => digit byte.toNat).take length := by
  induction bytes generalizing out with
  | nil => simp [appendBytes, List.take_of_length_le (Nat.le_of_lt h)]
  | cons byte bytes ih =>
      rw [appendBytes]
      split
      · next hrejected =>
        have : accepted byte = false := by simpa [accepted] using hrejected
        rw [List.filter_cons_of_neg (by simp [this]), ih h]
      · next haccepted =>
        have : accepted byte = true := by simpa [accepted] using haccepted
        have hlen : (out ++ [digit byte.toNat]).length = out.length + 1 := by simp
        have hcons : ∀ rest : JsString, out ++ digit byte.toNat :: rest =
            out ++ [digit byte.toNat] ++ rest := fun rest => by simp
        rw [List.filter_cons_of_pos this, List.map_cons, hcons (List.map _ _)]
        split
        · next hfull => rw [← hfull, List.take_left]
        · next hmore =>
          rw [hlen] at hmore
          exact ih (by rw [hlen]; omega)

theorem digitsUpTo_add (random : Nat → UInt8) (n m : Nat) :
    digitsUpTo random (n + m) = digitsUpTo random n ++
      (((List.range m).map fun i => random (n + i)).filter accepted).map
        fun byte => digit byte.toNat := by
  rw [digitsUpTo, List.range_add, List.map_append, List.filter_append, List.map_append,
    List.map_map]
  rfl

/-- The loop has taken the digits of the buffers so far, up to the length. -/
theorem randomLoop_eq (random : Nat → UInt8) (length fuel k : Nat) :
    randomLoop random length fuel k ((digitsUpTo random (length * 2 * k)).take length) =
      if length ≤ (digitsUpTo random (length * 2 * (k + fuel))).length then
        some ((digitsUpTo random (length * 2 * (k + fuel))).take length)
      else none := by
  induction fuel generalizing k with
  | zero =>
      rw [randomLoop, Nat.add_zero, List.length_take]
      split <;> split <;> first | rfl | omega
  | succ fuel ih =>
      have hshift : k + (fuel + 1) = k + 1 + fuel := by omega
      rw [randomLoop, List.length_take, hshift]
      split
      · next hshort =>
        have hall : (digitsUpTo random (length * 2 * k)).length < length := by omega
        rw [List.take_of_length_le (Nat.le_of_lt hall), appendBytes_eq _ hall]
        have hnext : digitsUpTo random (length * 2 * k) ++
            ((buffer random (length * 2) k).filter accepted).map (fun byte => digit byte.toNat) =
            digitsUpTo random (length * 2 * (k + 1)) := by
          rw [Nat.mul_succ (length * 2) k, digitsUpTo_add]
          rfl
        rw [hnext, ih]
      · next hfull =>
        have henough : length ≤ (digitsUpTo random (length * 2 * k)).length := by omega
        have hmore : length * 2 * (k + 1 + fuel) = length * 2 * k + length * 2 * (1 + fuel) := by
          rw [← Nat.mul_add, Nat.add_assoc]
        rw [hmore, digitsUpTo_add, if_pos, List.take_append_of_le_length henough]
        rw [List.length_append]
        omega

theorem randomBase58_eq (random : Nat → UInt8) (length fuel : Nat) :
    randomBase58 random length fuel =
      if length ≤ (digitsUpTo random (length * 2 * fuel)).length then
        some ((digitsUpTo random (length * 2 * fuel)).take length)
      else none := by
  have h := randomLoop_eq random length fuel 0
  have hnil : digitsUpTo random (length * 2 * 0) = [] := rfl
  rw [Nat.zero_add, hnil, List.take_nil] at h
  exact h

theorem digitsUpTo_inAlphabet (random : Nat → UInt8) (n : Nat) :
    InAlphabet (digitsUpTo random n) := by
  intro u hu
  obtain ⟨byte, -, rfl⟩ := List.mem_map.1 hu
  exact digit_mem _

theorem generateToken_eq_some {random : Nat → UInt8} {pre : JsString} {fuel : Nat}
    {token : GeneratedToken} (h : generateToken random pre fuel = some token) :
    token.body.length = TOKEN_BODY_LENGTH ∧ InAlphabet token.body ∧
      token.raw = pre ++ token.body ++ checksumOf (pre ++ token.body) := by
  obtain ⟨body, hbody, rfl⟩ := Option.map_eq_some_iff.1 h
  rw [randomBase58_eq] at hbody
  split at hbody
  · next henough =>
    obtain rfl := Option.some.inj hbody
    refine ⟨?_, ?_, rfl⟩
    · rw [List.length_take]
      exact Nat.min_eq_left henough
    · exact fun u hu => digitsUpTo_inAlphabet random _ u (List.mem_of_mem_take hu)
  · cases hbody

/-- A token is built just when the stream has a body's worth of accepted bytes. -/
theorem generateToken_isSome_iff (random : Nat → UInt8) (pre : JsString) :
    (∃ fuel token, generateToken random pre fuel = some token) ↔
      ∃ n, TOKEN_BODY_LENGTH ≤ (((List.range n).map random).filter accepted).length := by
  have hlen : ∀ n, (digitsUpTo random n).length =
      (((List.range n).map random).filter accepted).length := fun n => by
    rw [digitsUpTo, List.length_map]
  constructor
  · rintro ⟨fuel, token, h⟩
    obtain ⟨body, hbody, -⟩ := Option.map_eq_some_iff.1 h
    rw [randomBase58_eq] at hbody
    split at hbody
    · next henough => exact ⟨_, hlen _ ▸ henough⟩
    · cases hbody
  · rintro ⟨n, hn⟩
    have hmore : TOKEN_BODY_LENGTH * 2 * n = n + (TOKEN_BODY_LENGTH * 2 - 1) * n := by
      simp only [TOKEN_BODY_LENGTH]
      omega
    refine ⟨n, ?_⟩
    rw [generateToken, randomBase58_eq, if_pos]
    · exact ⟨_, rfl⟩
    · rw [hmore, digitsUpTo_add, List.length_append, hlen]
      omega

/-! ## Slips -/

/-- Whatever stands in one place of body or checksum instead of what was there. -/
theorem parseToken_altered {pre left right char raw : JsString} {u : CodeUnit}
    (hraw : WellFormed pre raw) (hplace : raw = left ++ u :: right)
    (hleft : pre.length ≤ left.length) (hchar : char ≠ [u]) :
    ∃ e, parseToken (left ++ char ++ right) pre = .error e := by
  cases hparse : parseToken (left ++ char ++ right) pre with
  | error e => exact ⟨e, rfl⟩
  | ok r =>
      exfalso
      obtain ⟨body, hlength, hbody, rfl⟩ := hraw
      obtain ⟨-, body', hlength', hbody', haltered⟩ := parseToken_eq_ok.1 hparse
      obtain ⟨l, rfl⟩ : ∃ l, left = pre ++ l := by
        rw [List.append_assoc] at hplace
        rcases List.append_eq_append_iff.1 hplace with ⟨l, hl, -⟩ | ⟨l, hl, -⟩
        · exact ⟨l, hl⟩
        · have hlen := congrArg List.length hl
          rw [List.length_append] at hlen
          obtain rfl : l = [] := List.length_eq_zero_iff.1 (by omega)
          exact ⟨[], by rw [hl, List.append_nil, List.append_nil]⟩
      simp only [List.append_assoc, List.append_cancel_left_eq] at hplace haltered
      obtain ⟨v, rfl⟩ : ∃ v, char = [v] := by
        have hlen := congrArg List.length hplace
        have hlen' := congrArg List.length haltered
        simp only [List.length_append, List.length_cons, checksumOf_length] at hlen hlen'
        exact List.length_eq_one_iff.1 (by omega)
      have hne : u ≠ v := fun h => hchar (by rw [h])
      -- The place is in the checksum, or in the body.
      rcases List.append_eq_append_iff.1 hplace with ⟨c, rfl, hc⟩ | ⟨r, hr, hright⟩
      · rw [List.append_assoc] at haltered
        obtain ⟨rfl, hc'⟩ := List.append_inj haltered (by rw [hlength, hlength'])
        rw [hc] at hc'
        exact hne (List.cons.inj (List.append_cancel_left hc')).1.symm
      · cases r with
        | nil =>
            rw [List.append_nil] at hr
            subst hr
            obtain ⟨rfl, hc'⟩ := List.append_inj haltered (by rw [hlength, hlength'])
            rw [List.nil_append] at hright
            rw [← hright] at hc'
            exact hne (List.cons.inj hc').1.symm
        | cons x r =>
            rw [List.cons_append] at hright
            obtain ⟨rfl, rfl⟩ := List.cons.inj hright
            subst hr
            have hsame : l ++ ([v] ++ (r ++ checksumOf (pre ++ (l ++ u :: r)))) =
                (l ++ v :: r) ++ checksumOf (pre ++ (l ++ u :: r)) := by simp
            rw [hsame] at haltered
            obtain ⟨rfl, hc'⟩ := List.append_inj haltered (by
              rw [hlength', ← hlength]
              simp)
            exact checksumOf_ne hne hbody hbody' hc'

/-- A token that is built is read back; only well-formed texts are read; and no
character of a token's body or checksum can be replaced. -/
theorem token_codec (pre : JsString) :
    (∀ random, ((∃ fuel token, generateToken random pre fuel = some token) ↔
        ∃ n, TOKEN_BODY_LENGTH ≤ (((List.range n).map random).filter accepted).length) ∧
      ∀ fuel token, generateToken random pre fuel = some token →
        parseToken token.raw pre = .ok token.raw ∧
        ∀ left u right char, token.raw = left ++ u :: right → pre.length ≤ left.length →
          char ≠ [u] → ∃ e, parseToken (left ++ char ++ right) pre = .error e) ∧
    ∀ raw r, parseToken raw pre = .ok r → r = raw ∧ ∃ body, body.length = TOKEN_BODY_LENGTH ∧
      (∀ u ∈ body, u ∈ BASE58_ALPHABET) ∧ raw = pre ++ body ++ checksumOf (pre ++ body) := by
  refine ⟨fun random => ⟨generateToken_isSome_iff random pre, fun fuel token h => ?_⟩,
    fun raw r h => parseToken_eq_ok.1 h⟩
  have hwf : WellFormed pre token.raw := ⟨token.body, generateToken_eq_some h⟩
  exact ⟨parseToken_eq_ok.2 ⟨rfl, hwf⟩,
    fun left u right char hplace hleft hchar => parseToken_altered hwf hplace hleft hchar⟩

theorem token_codec_zero_bytes :
    ∃ token, generateToken (fun _ => 0) (unitsOf "cs_") 1 = some token ∧
      parseToken token.raw (unitsOf "cs_") = .ok token.raw := by
  have hsome : (generateToken (fun _ => 0) (unitsOf "cs_") 1).isSome = true := by decide
  obtain ⟨token, htoken⟩ := Option.isSome_iff_exists.1 hsome
  exact ⟨token, htoken, (((token_codec (unitsOf "cs_")).1 fun _ => 0).2 1 token htoken).1⟩

end CleanStack.ApiToken
