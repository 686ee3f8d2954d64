import CleanStack.Webhooks.SsrfGuard

/-!
# What the address guard turns away

Every spelling `node:net` accepts is read as a number, and the guard's ranges are
ranges of numbers. Only one form is also taken apart as a text: an address that
begins with `::ffff:` is looked up as the IPv4 address it maps, which is the
number a block list would find in it as well.

The ranges of IPv4 contain the unspecified address, which the guard adds to them;
those of IPv6 do not contain `::`, to which one connects just as well.
-/

namespace CleanStack.Webhooks

open CleanStack.Kit CleanStack.Lib

/-! ## The ranges -/

/-- Loopback, unspecified, private, link-local and carrier-grade NAT, by number. -/
def InternalV4 (n : Nat) : Prop :=
  n / 2 ^ 24 = 127 ∨ n = 0 ∨ n / 2 ^ 24 = 10 ∨ n / 2 ^ 20 = 172 * 16 + 1 ∨
    n / 2 ^ 16 = 192 * 256 + 168 ∨ n / 2 ^ 16 = 169 * 256 + 254 ∨ n / 2 ^ 22 = 100 * 4 + 1

/-- Loopback, unspecified, unique-local and link-local, or mapped from IPv4. -/
def InternalV6 (n : Nat) : Prop :=
  n = 1 ∨ n = 0 ∨ n / 2 ^ 121 = 0xfc / 2 ∨ n / 2 ^ 118 = 0xfe80 / 64 ∨
    (n / 2 ^ 32 = 0xffff ∧ InternalV4 (n % 2 ^ 32))

/-- The text is an address of an internal destination. -/
def DenotesInternal (ip : String) : Prop :=
  (∃ n, ipv4? ip.toList = some n ∧ InternalV4 n) ∨ ∃ n, ipv6? ip.toList = some n ∧ InternalV6 n

def UnspecifiedV6 (ip : String) : Prop := ipv6? ip.toList = some 0

theorem privateBlockList_ipv4 : privateBlockList.ipv4 =
    [(10 * 2 ^ 24, 8), ((172 * 16 + 1) * 2 ^ 20, 12), ((192 * 256 + 168) * 2 ^ 16, 16),
      (127 * 2 ^ 24, 8), ((169 * 256 + 254) * 2 ^ 16, 16), ((100 * 4 + 1) * 2 ^ 22, 10),
      (0, 8)] := by
  decide

theorem privateBlockList_ipv6 : privateBlockList.ipv6 =
    [(1, 128), (126 * 2 ^ 121, 7), (1018 * 2 ^ 118, 10)] := by
  decide

theorem any_ipv4_of_internal {n : Nat} (h : InternalV4 n) :
    privateBlockList.ipv4.any (sameSubnet 32 n) = true := by
  rw [privateBlockList_ipv4]
  simp only [List.any_cons, List.any_nil, sameSubnet, Bool.or_eq_true, decide_eq_true_eq,
    Bool.or_false]
  unfold InternalV4 at h
  omega

/-- The IPv6 ranges do not contain the number 0. -/
theorem any_ipv6_of_internal {n : Nat} (h : InternalV6 n) (hn : n ≠ 0)
    (hmapped : n / 2 ^ 32 ≠ 0xffff) : privateBlockList.ipv6.any (sameSubnet 128 n) = true := by
  rw [privateBlockList_ipv6]
  simp only [List.any_cons, List.any_nil, sameSubnet, Bool.or_eq_true, decide_eq_true_eq,
    Bool.or_false]
  rcases h with rfl | rfl | hlocal | hlink | ⟨hffff, -⟩
  · exact .inl rfl
  · exact absurd rfl hn
  · exact .inr (.inl (by simpa using hlocal))
  · exact .inr (.inr (by simpa using hlink))
  · exact absurd hffff hmapped

/-! ## Reading a mapped address -/

theorem octet_lt {part : List Char} {n : Nat} (h : octet? part = some n) : n < 256 := by
  unfold octet? at h
  split at h
  · cases h
  split at h
  · cases h
  split at h
  · next hlt =>
    cases h
    exact hlt
  · cases h

theorem ipv4_lt {text : List Char} {n : Nat} (h : ipv4? text = some n) : n < 2 ^ 32 := by
  unfold ipv4? at h
  split at h
  · next a b c d hparts =>
    have hmem : ∀ x ∈ [some a, some b, some c, some d], ∃ part, octet? part = x := by
      intro x hx
      rw [← hparts] at hx
      obtain ⟨part, -, hpart⟩ := List.mem_map.1 hx
      exact ⟨part, hpart⟩
    have hlt : ∀ k, some k ∈ [some a, some b, some c, some d] → k < 256 := by
      intro k hk
      obtain ⟨part, hpart⟩ := hmem _ hk
      exact octet_lt hpart
    have ha := hlt a (by simp)
    have hb := hlt b (by simp)
    have hc := hlt c (by simp)
    have hd := hlt d (by simp)
    cases h
    omega
  · cases h

theorem octet_toString : ∀ k < 256, octet? (toString k).toList = some k := by
  decide +kernel

theorem dot_not_mem_toString (k : Nat) : '.' ∉ (toString k).toList := by
  intro h
  have hmem : '.' ∈ Nat.toDigits 10 k := by simpa [Nat.repr] using h
  have hdigit := Nat.isDigit_of_mem_toDigits (by decide) (by decide) hmem
  exact absurd hdigit (by decide)

/-- A dotted address is read back as its octets. -/
theorem ipv4_dotted {hi lo : Nat} (hhi : hi < 65536) (hlo : lo < 65536) :
    ipv4? (dotted hi lo).toList = some (hi * 65536 + lo) := by
  have hchars : (dotted hi lo).toList = (toString (hi / 256 % 256)).toList ++ '.' ::
      ((toString (hi % 256)).toList ++ '.' :: ((toString (lo / 256 % 256)).toList ++ '.' ::
        (toString (lo % 256)).toList)) := by
    simp [dotted]
  have hmod : ∀ k : Nat, k % 256 < 256 := fun k => Nat.mod_lt k (by decide)
  have hsplit : (splitOnChar '.' (dotted hi lo).toList).map octet? =
      [some (hi / 256 % 256), some (hi % 256), some (lo / 256 % 256), some (lo % 256)] := by
    rw [hchars, splitOnChar_append (dot_not_mem_toString _),
      splitOnChar_append (dot_not_mem_toString _), splitOnChar_append (dot_not_mem_toString _),
      splitOnChar_of_not_mem (dot_not_mem_toString _)]
    simp only [List.map_cons, List.map_nil, octet_toString _ (hmod _)]
  have hvalue : ((hi / 256 % 256 * 256 + hi % 256) * 256 + lo / 256 % 256) * 256 + lo % 256 =
      hi * 65536 + lo := by
    omega
  unfold ipv4?
  rw [hsplit, ← hvalue]

theorem hexValue_lt {c : Char} (h : isHexDigit c = true) : hexValue c < 16 := by
  unfold isHexDigit at h
  unfold hexValue
  by_cases hdigit : c.isDigit = true
  · have hbounds : 48 ≤ c.toNat ∧ c.toNat ≤ 57 := by
      simpa [Char.isDigit, UInt32.le_iff_toNat_le] using hdigit
    rw [if_pos hdigit]
    omega
  · rw [if_neg hdigit]
    simp only [hdigit, Bool.false_or, Bool.or_eq_true, Bool.and_eq_true, decide_eq_true_eq] at h
    split <;> omega

theorem numberIn_lt {digits : List Char} (h : digits.all isHexDigit = true) :
    numberIn 16 digits < 16 ^ digits.length := by
  suffices ∀ k, digits.foldl (fun n c => 16 * n + hexValue c) k <
      (k + 1) * 16 ^ digits.length by simpa [numberIn] using this 0
  induction digits with
  | nil => simp
  | cons c cs ih =>
      intro k
      simp only [List.all_cons, Bool.and_eq_true] at h
      have hc := hexValue_lt h.1
      have hrest := ih h.2 (16 * k + hexValue c)
      rw [List.foldl_cons, List.length_cons, Nat.pow_succ']
      refine Nat.lt_of_lt_of_le hrest ?_
      rw [← Nat.mul_assoc]
      exact Nat.mul_le_mul_right _ (by omega)

theorem shortHex_lt {part : List Char} (h : isShortHex part = true) :
    numberIn 16 part < 65536 ∧ group? part = some (numberIn 16 part) := by
  simp only [isShortHex, Bool.and_eq_true, decide_eq_true_eq] at h
  obtain ⟨⟨hne, hlen⟩, hall⟩ := h
  constructor
  · have hpow : 16 ^ part.length ≤ 16 ^ 4 := Nat.pow_le_pow_right (by decide) hlen
    have := numberIn_lt hall
    omega
  · have hnil : part ≠ [] := by simpa using hne
    simp [group?, hall, hnil, hlen]

theorem toLower_cases {c x : Char} (h : c.toLower = x) :
    c = x ∨ (65 ≤ c.toNat ∧ c.toNat ≤ 90 ∧ c.toNat + 32 = x.toNat) := by
  unfold Char.toLower at h
  split at h
  · next hupper =>
    right
    obtain ⟨hge, hle⟩ := hupper
    have hge' : 65 ≤ c.toNat := by simpa [UInt32.le_iff_toNat_le] using hge
    have hle' : c.toNat ≤ 90 := by simpa [UInt32.le_iff_toNat_le] using hle
    refine ⟨hge', hle', ?_⟩
    have hval := congrArg Char.toNat h
    have hsum : (c.val + ('a'.val - 'A'.val)).toNat = c.toNat + 32 := by
      have h32 : ('a'.val - 'A'.val : UInt32).toNat = 32 := by decide
      rw [UInt32.toNat_add, h32]
      have : c.val.toNat = c.toNat := rfl
      omega
    exact hsum.symm.trans hval
  · exact .inl h

theorem toLower_eq_colon {c : Char} (h : c.toLower = ':') : c = ':' := by
  rcases toLower_cases h with heq | ⟨hge, -, hsum⟩
  · exact heq
  · have hcolon : ':'.toNat = 58 := rfl
    omega

theorem toLower_eq_f {c : Char} (h : c.toLower = 'f') : c ∈ ['f', 'F'] := by
  rcases toLower_cases h with heq | ⟨-, -, hsum⟩
  · simp [heq]
  · have hf : c.toNat = 'F'.toNat := by
      have : 'f'.toNat = 102 := rfl
      have : 'F'.toNat = 70 := rfl
      omega
    simp [Char.toNat_inj.1 hf]

theorem group_ffff : ∀ a ∈ ['f', 'F'], ∀ b ∈ ['f', 'F'], ∀ c ∈ ['f', 'F'], ∀ d ∈ ['f', 'F'],
    group? [a, b, c, d] = some 65535 := by
  have hall : (['f', 'F'].all fun a => ['f', 'F'].all fun b => ['f', 'F'].all fun c =>
      ['f', 'F'].all fun d => group? [a, b, c, d] = some 65535) = true := by decide
  simpa only [List.all_eq_true, decide_eq_true_eq] using hall

/-- The text before the tail of `::ffff:`, in any case. -/
theorem ffff_of_lower {cs : List Char}
    (h : cs.map Char.toLower = [':', ':', 'f', 'f', 'f', 'f', ':']) :
    ∃ group, cs = ':' :: ':' :: (group ++ [':']) ∧ group? group = some 65535 ∧
      ∀ c ∈ group, c = 'f' ∨ c = 'F' := by
  have hlen : cs.length = 7 := by simpa using congrArg List.length h
  obtain ⟨a, b, c, d, e, f, g, rfl⟩ : ∃ a b c d e f g, cs = [a, b, c, d, e, f, g] := by
    match cs, hlen with
    | [a, b, c, d, e, f, g], _ => exact ⟨a, b, c, d, e, f, g, rfl⟩
  simp only [List.map_cons, List.map_nil, List.cons.injEq, and_true] at h
  obtain ⟨ha, hb, hc, hd, he, hf, hg⟩ := h
  obtain rfl := toLower_eq_colon ha
  obtain rfl := toLower_eq_colon hb
  obtain rfl := toLower_eq_colon hg
  refine ⟨[c, d, e, f], rfl, ?_, ?_⟩
  · exact group_ffff c (toLower_eq_f hc) d (toLower_eq_f hd) e (toLower_eq_f he) f (toLower_eq_f hf)
  · intro x hx
    have hcases : x = c ∨ x = d ∨ x = e ∨ x = f := by simpa using hx
    rcases hcases with rfl | rfl | rfl | rfl
    · simpa using toLower_eq_f hc
    · simpa using toLower_eq_f hd
    · simpa using toLower_eq_f he
    · simpa using toLower_eq_f hf

theorem withoutZone_of_not_mem {text : List Char} (h : '%' ∉ text) :
    withoutZone text = some text := by
  rw [withoutZone, splitOnChar_of_not_mem h]

/-- What stands after `::ffff:` is the end of the number. -/
theorem ipv6_mapped {group tail : List Char} {n : Nat} (hgroup : group? group = some 65535)
    (hletters : ∀ c ∈ group, c = 'f' ∨ c = 'F') (hzone : '%' ∉ tail)
    (hread : ipv6? (':' :: ':' :: (group ++ ':' :: tail)) = some n) :
    ∃ gs, groups? true (splitOnChar ':' tail) = some gs ∧
      n = ofGroups (List.replicate (7 - gs.length) 0 ++ 65535 :: gs) := by
  have hfree : ∀ c : Char, c ≠ 'f' → c ≠ 'F' → c ∉ group := by
    intro c hf hF hmem
    rcases hletters c hmem with h | h
    · exact hf h
    · exact hF h
  have hcolon : ':' ∉ group := hfree ':' (by decide) (by decide)
  have hpercent : '%' ∉ ':' :: ':' :: (group ++ ':' :: tail) := by
    simp [hfree '%' (by decide) (by decide), hzone]
  obtain ⟨part, parts, hparts⟩ :=
    List.exists_cons_of_ne_nil (separated_splitOnChar ':' tail).1
  have hrun : run? true (group ++ ':' :: tail) =
      (groups? true (splitOnChar ':' tail)).map (65535 :: ·) := by
    rw [run?, if_neg (by simp), splitOnChar_append hcolon, hparts, groups?, hgroup]
    · cases groups? true (part :: parts) <;> rfl
    · exact List.cons_ne_nil _ _
  have hvalue : ipv6? (':' :: ':' :: (group ++ ':' :: tail)) =
      (groups? true (splitOnChar ':' tail)).bind fun gs =>
        if 8 - (0 + (gs.length + 1)) = 0 then none
        else some (ofGroups (List.replicate (8 - (0 + (gs.length + 1))) 0 ++ 65535 :: gs)) := by
    have hgap : splitGap (':' :: ':' :: (group ++ ':' :: tail)) =
        some ([], group ++ ':' :: tail) := rfl
    have hleft : run? false [] = some [] := rfl
    rw [ipv6?, withoutZone_of_not_mem hpercent, Option.bind_eq_bind, Option.bind_some, hgap]
    dsimp only
    rw [hleft, hrun]
    cases groups? true (splitOnChar ':' tail) <;> rfl
  rw [hvalue] at hread
  obtain ⟨gs, hgs, hvalue⟩ := Option.bind_eq_some_iff.1 hread
  split at hvalue
  · cases hvalue
  · refine ⟨gs, hgs, ?_⟩
    have hlen : 8 - (0 + (gs.length + 1)) = 7 - gs.length := by omega
    rw [hlen] at hvalue
    exact (Option.some.inj hvalue).symm

theorem mem_separated {sep c : Char} {parts : List (List Char)} (h : c ∈ separated sep parts) :
    c = sep ∨ ∃ part ∈ parts, c ∈ part := by
  cases parts with
  | nil => cases h
  | cons part parts =>
      rw [separated_cons, List.mem_append, List.mem_flatMap] at h
      rcases h with hpart | ⟨x, hx, hmem⟩
      · exact .inr ⟨part, List.mem_cons_self, hpart⟩
      · rcases List.mem_cons.1 hmem with heq | hmem
        · exact .inl heq
        · exact .inr ⟨x, List.mem_cons_of_mem _ hx, hmem⟩

/-- A text whose parts are of one kind of character has no others but the
separator. -/
theorem not_mem_of_parts {sep c : Char} {text : List Char} {kind : Char → Bool}
    (hsep : c ≠ sep) (hc : kind c = false)
    (hparts : ∀ part ∈ splitOnChar sep text, part.all kind = true) : c ∉ text := by
  intro h
  rw [← (separated_splitOnChar sep text).2.1] at h
  rcases mem_separated h with heq | ⟨part, hpart, hmem⟩
  · exact hsep heq
  · have := List.all_eq_true.1 (hparts part hpart) c hmem
    rw [hc] at this
    cases this

theorem group_eq_none {part : List Char} {c : Char} (h : c ∈ part)
    (hc : isHexDigit c = false) : group? part = none := by
  have hall : part.all isHexDigit = false := by
    rw [List.all_eq_false]
    exact ⟨c, h, by simp [hc]⟩
  simp [group?, hall]

/-- The dotted address a mapped one is unwrapped to is the lower half of its
number. -/
theorem mapped_of_unwrap {ip mapped : String} {n : Nat} (hread : ipv6? ip.toList = some n)
    (h : unwrapIpv4Mapped ip = some mapped) :
    n / 2 ^ 32 = 0xffff ∧ ipv4? mapped.toList = some (n % 2 ^ 32) := by
  unfold unwrapIpv4Mapped at h
  split at h
  · cases h
  next hhead =>
  obtain ⟨group, htake, hgroup, hletters⟩ := ffff_of_lower (not_not.1 hhead)
  have htext : ip.toList = ':' :: ':' :: (group ++ ':' :: ip.toList.drop 7) := by
    have := List.take_append_drop 7 ip.toList
    rw [htake] at this
    simpa using this.symm
  rw [htext] at hread
  generalize ip.toList.drop 7 = tail at h hread
  dsimp only at h
  split at h
  · next hdotted =>
    simp only [Bool.and_eq_true, decide_eq_true_eq] at hdotted
    obtain ⟨hlen, hshort⟩ := hdotted
    have hdigits : ∀ part ∈ splitOnChar '.' tail, part.all Char.isDigit = true := by
      intro part hpart
      have := List.all_eq_true.1 hshort part hpart
      simp only [isShortDecimal, Bool.and_eq_true] at this
      exact this.2
    have hcolon : ':' ∉ tail := not_mem_of_parts (by decide) (by decide) hdigits
    have hzone : '%' ∉ tail := not_mem_of_parts (by decide) (by decide) hdigits
    have hdot : '.' ∈ tail := by
      by_contra hno
      rw [splitOnChar_of_not_mem hno] at hlen
      cases hlen
    obtain ⟨gs, hgs, hn⟩ := ipv6_mapped hgroup hletters hzone hread
    rw [splitOnChar_of_not_mem hcolon, groups?, group_eq_none hdot (by decide)] at hgs
    cases hm : ipv4? tail with
    | none => simp [hm] at hgs
    | some m =>
        have hlt := ipv4_lt hm
        obtain rfl : [m / 65536, m % 65536] = gs := by simpa [hm] using hgs
        obtain rfl : String.ofList tail = mapped := Option.some.inj h
        have hsum : n = 65535 * 2 ^ 32 + m := by
          rw [hn]
          simp [ofGroups, List.replicate]
          omega
        rw [String.toList_ofList, hm, hsum]
        constructor
        · omega
        · congr 1
          omega
  · split at h
    · next hi lo hparts =>
      split at h
      · next hhex =>
        simp only [Bool.and_eq_true] at hhex
        obtain ⟨hhi, hghi⟩ := shortHex_lt hhex.1
        obtain ⟨hlo, hglo⟩ := shortHex_lt hhex.2
        have hall : ∀ part, isShortHex part = true → part.all isHexDigit = true := by
          intro part hpart
          simp only [isShortHex, Bool.and_eq_true] at hpart
          exact hpart.2
        have hzone : '%' ∉ tail := by
          refine @not_mem_of_parts ':' '%' tail isHexDigit (by decide) (by decide) ?_
          rw [hparts]
          intro part hpart
          have hcases : part = hi ∨ part = lo := by simpa using hpart
          rcases hcases with rfl | rfl
          · exact hall _ hhex.1
          · exact hall _ hhex.2
        obtain ⟨gs, hgs, hn⟩ := ipv6_mapped hgroup hletters hzone hread
        rw [hparts] at hgs
        obtain rfl : [numberIn 16 hi, numberIn 16 lo] = gs := by
          simpa [groups?, hghi, hglo] using hgs
        obtain rfl := Option.some.inj h
        have hsum : n = 65535 * 2 ^ 32 + (numberIn 16 hi * 65536 + numberIn 16 lo) := by
          rw [hn]
          simp [ofGroups, List.replicate]
          omega
        rw [ipv4_dotted hhi hlo, hsum]
        constructor
        · omega
        · congr 1
          omega
      · cases h
    · cases h

/-! ## The two families -/

/-- An IPv6 address has a colon in it. -/
theorem ipv6_eq_none {text : List Char} (hcolon : ':' ∉ text) (hzone : '%' ∉ text) :
    ipv6? text = none := by
  have hgap : ∀ cs : List Char, ':' ∉ cs → splitGap cs = none := by
    intro cs
    induction cs with
    | nil => intro _; rfl
    | cons c cs ih =>
        intro h
        obtain ⟨hc, hcs⟩ := not_or.1 (mt List.mem_cons.2 h)
        rw [splitGap, ih hcs]
        · rfl
        · intro rest heq
          exact absurd heq.symm hc
  rw [ipv6?, withoutZone_of_not_mem hzone, Option.bind_eq_bind, Option.bind_some,
    hgap text hcolon]
  cases hrun : run? true text with
  | none => rfl
  | some groups =>
      have hlen : groups.length ≠ 8 := by
        rw [run?, splitOnChar_of_not_mem hcolon] at hrun
        split at hrun
        · cases hrun
          decide
        · rw [groups?] at hrun
          split at hrun
          · cases hrun
            simp
          · cases hrun
            simp
          · cases hrun
      simp [hlen]

theorem ipv6_of_ipv4 {text : List Char} {n : Nat} (h : ipv4? text = some n) :
    ipv6? text = none := by
  have hdigits : ∀ part ∈ splitOnChar '.' text, part.all Char.isDigit = true := by
    intro part hpart
    unfold ipv4? at h
    split at h
    · next a b c d hparts =>
      have hmem : octet? part ∈ (splitOnChar '.' text).map octet? := List.mem_map_of_mem hpart
      rw [hparts] at hmem
      rw [List.all_eq_true]
      intro c hc
      by_contra hno
      have hnone : octet? part = none := by
        have hall : part.all Char.isDigit = false := List.all_eq_false.2 ⟨c, hc, hno⟩
        simp [octet?, hall]
      simp [hnone] at hmem
    · cases h
  exact ipv6_eq_none (not_mem_of_parts (by decide) (by decide) hdigits)
    (not_mem_of_parts (by decide) (by decide) hdigits)

/-! ## What the guard answers -/

theorem isPrivate_of_ipv4 {ip : String} {n : Nat} (hip : ipv4? ip.toList = some n)
    (h : InternalV4 n) : isPrivateOrReservedV4 ip = true := by
  simp [isPrivateOrReservedV4, isIPv4, BlockList.check, hip, any_ipv4_of_internal h]

theorem internalV4_of_mapped {n : Nat} (h : InternalV6 n) (hmapped : n / 2 ^ 32 = 0xffff) :
    InternalV4 (n % 2 ^ 32) := by
  rcases h with rfl | rfl | hlocal | hlink | ⟨-, hv4⟩
  · cases hmapped
  · cases hmapped
  · omega
  · omega
  · exact hv4

/-- An internal IPv6 address is answered for in whatever way it is spelled,
unless it is the unspecified one. -/
theorem isPrivate_of_ipv6 {ip : String} {n : Nat} (hip : ipv6? ip.toList = some n)
    (h : InternalV6 n) : isPrivateOrReservedAddress ip = true ↔ n ≠ 0 := by
  have hv4 : ipv4? ip.toList = none := by
    cases hv4 : ipv4? ip.toList with
    | none => rfl
    | some m =>
        rw [ipv6_of_ipv4 hv4] at hip
        cases hip
  simp only [isPrivateOrReservedAddress, isIPv4, isIPv6, hv4, hip, Option.isSome_none,
    Option.isSome_some, Bool.false_eq_true, if_false, if_true]
  cases hunwrap : unwrapIpv4Mapped ip with
  | some mapped =>
      obtain ⟨hmapped, hlow⟩ := mapped_of_unwrap hip hunwrap
      have hne : n ≠ 0 := by
        rintro rfl
        cases hmapped
      exact iff_of_true (isPrivate_of_ipv4 hlow (internalV4_of_mapped h hmapped)) hne
  | none =>
      simp only [BlockList.check, hip, Bool.or_eq_true, Bool.and_eq_true, decide_eq_true_eq]
      constructor
      · rintro (hany | ⟨hmapped, -⟩) rfl
        · rw [privateBlockList_ipv6] at hany
          exact absurd hany (by decide)
        · cases hmapped
      · intro hne
        by_cases hmapped : n / 2 ^ 32 = 65535
        · exact .inr ⟨hmapped, any_ipv4_of_internal (internalV4_of_mapped h hmapped)⟩
        · exact .inl (any_ipv6_of_internal h hne hmapped)

theorem isPrivate_iff_of_internal {ip : String} (h : DenotesInternal ip) :
    isPrivateOrReservedAddress ip = true ↔ ¬UnspecifiedV6 ip := by
  rcases h with ⟨n, hip, hinternal⟩ | ⟨n, hip, hinternal⟩
  · have hnot : ¬UnspecifiedV6 ip := by
      rw [UnspecifiedV6, ipv6_of_ipv4 hip]
      simp
    refine iff_of_true ?_ hnot
    simpa [isPrivateOrReservedAddress, isPrivateOrReservedV4, isIPv4, hip]
      using isPrivate_of_ipv4 hip hinternal
  · rw [isPrivate_of_ipv6 hip hinternal, UnspecifiedV6, hip, Option.some_inj]

/-- The guard answers for every spelling of every internal address, but those of
the IPv6 unspecified address; an accepted host resolves to internal addresses
exactly where it resolves to that one. -/
theorem isPrivateOrReservedAddress_iff (ip : String) (parseUrl : String → Option Url)
    (rawUrl : String) (lookup : Lookup) (httpsOnly : Bool) (lookupTimeoutMs : Nat) :
    (DenotesInternal ip → (isPrivateOrReservedAddress ip = true ↔ ¬UnspecifiedV6 ip)) ∧
      ∀ url, assertPublicUrl parseUrl rawUrl lookup httpsOnly lookupTimeoutMs = .ok url →
        ∃ addrs, lookup = .addresses addrs ∧
          ((∀ a ∈ addrs, ¬DenotesInternal a) ↔ ∀ a ∈ addrs, ¬UnspecifiedV6 a) := by
  refine ⟨isPrivate_iff_of_internal, ?_⟩
  intro url h
  obtain ⟨-, addrs, hlookup, hpublic⟩ := assertPublicUrl_eq_ok h
  refine ⟨addrs, hlookup, ?_⟩
  constructor
  · intro hnone a ha hunspecified
    exact hnone a ha (.inr ⟨0, hunspecified, .inr (.inl rfl)⟩)
  · intro hnone a ha hinternal
    have htrue := (isPrivate_iff_of_internal hinternal).2 (hnone a ha)
    rw [hpublic a ha] at htrue
    cases htrue

theorem isPrivateOrReservedAddress_iff_mapped :
    isPrivateOrReservedAddress "::FFFF:7f00:1" = true ∧
      ∃ addrs, Lookup.addresses ["93.184.216.34"] = .addresses addrs ∧
        ((∀ a ∈ addrs, ¬DenotesInternal a) ↔ ∀ a ∈ addrs, ¬UnspecifiedV6 a) := by
  have hmapped : DenotesInternal "::FFFF:7f00:1" :=
    .inr ⟨0xffff * 2 ^ 32 + 127 * 2 ^ 24 + 1, by decide,
      .inr (.inr (.inr (.inr ⟨by decide, .inl (by decide)⟩)))⟩
  have hguard := isPrivateOrReservedAddress_iff "::FFFF:7f00:1"
    (fun raw => some ⟨raw, "https:", "", "", "example.com"⟩) "https://example.com/hook"
    (.addresses ["93.184.216.34"]) true 5000
  refine ⟨(hguard.1 hmapped).2 ?_, ?_⟩
  · unfold UnspecifiedV6
    decide
  · exact hguard.2 ⟨"https://example.com/hook", "https:", "", "", "example.com"⟩
      (by decide)

/-- A host that resolves to `::` is let through. -/
theorem unspecified_let_through :
    DenotesInternal "::" ∧ isPrivateOrReservedAddress "::" = false ∧
      ∃ url, assertPublicUrl (fun raw => some ⟨raw, "https:", "", "", "example.com"⟩)
        "https://example.com/hook" (.addresses ["::"]) true 5000 = .ok url := by
  refine ⟨.inr ⟨0, by decide, .inr (.inl rfl)⟩, by decide, ?_⟩
  exact ⟨⟨"https://example.com/hook", "https:", "", "", "example.com"⟩, by decide⟩

end CleanStack.Webhooks
