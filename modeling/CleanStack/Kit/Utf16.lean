/-!
# Strings as the language stores them

A string is a list of UTF-16 code units; its length and its slices count these.
Walking one with `for … of` takes a surrogate pair together, and so does its
UTF-8 encoding, in which a surrogate that has no partner becomes U+FFFD.
-/

namespace CleanStack.Kit

abbrev CodeUnit := UInt16

abbrev JsString := List CodeUnit

def isHighSurrogate (u : CodeUnit) : Bool := 0xd800 ≤ u.toNat && u.toNat < 0xdc00

def isLowSurrogate (u : CodeUnit) : Bool := 0xdc00 ≤ u.toNat && u.toNat < 0xe000

/-- The units of a text. -/
def unitsOf (s : String) : JsString :=
  s.toList.flatMap fun c =>
    if c.toNat < 0x10000 then [c.toNat.toUInt16]
    else [(0xd800 + (c.toNat - 0x10000) / 0x400).toUInt16,
      (0xdc00 + (c.toNat - 0x10000) % 0x400).toUInt16]

/-- The characters `for … of` walks over. -/
def codePoints : JsString → List JsString
  | [] => []
  | [u] => [[u]]
  | u :: v :: rest =>
      if isHighSurrogate u && isLowSurrogate v then [u, v] :: codePoints rest
      else [u] :: codePoints (v :: rest)

def scalarOf : JsString → Nat
  | [u, v] => 0x10000 + (u.toNat - 0xd800) * 0x400 + (v.toNat - 0xdc00)
  | [u] => if isHighSurrogate u || isLowSurrogate u then 0xfffd else u.toNat
  | _ => 0xfffd

def utf8Bytes (n : Nat) : List (BitVec 8) :=
  if n < 0x80 then [n]
  else if n < 0x800 then [0xc0 + n / 0x40, 0x80 + n % 0x40]
  else if n < 0x10000 then [0xe0 + n / 0x1000, 0x80 + n / 0x40 % 0x40, 0x80 + n % 0x40]
  else [0xf0 + n / 0x40000, 0x80 + n / 0x1000 % 0x40, 0x80 + n / 0x40 % 0x40, 0x80 + n % 0x40]

def utf8 (s : JsString) : List (BitVec 8) := (codePoints s).flatMap fun c => utf8Bytes (scalarOf c)

/-- `s.length`. -/
def jsLength (s : String) : Nat := (unitsOf s).length

theorem toUInt16_inj {m n : Nat} (hm : m < 0x10000) (hn : n < 0x10000)
    (h : m.toUInt16 = n.toUInt16) : m = n := by
  have hnat := congrArg UInt16.toNat h
  simp only [Nat.toUInt16, UInt16.toNat_ofNat'] at hnat
  omega

/-- No character is a surrogate. -/
theorem not_surrogate (c : Char) : c.toNat < 0xd800 ∨ 0xdfff < c.toNat ∧ c.toNat < 0x110000 :=
  c.valid

/-- Different texts have different units. -/
theorem unitsOf_injective {s t : String} (h : unitsOf s = unitsOf t) : s = t := by
  rw [unitsOf, unitsOf] at h
  rw [← String.toList_inj]
  generalize s.toList = cs at h ⊢
  generalize t.toList = ds at h ⊢
  induction cs generalizing ds with
  | nil =>
      cases ds with
      | nil => rfl
      | cons d ds =>
          rw [List.flatMap_cons] at h
          split at h <;> simp at h
  | cons c cs ih =>
      cases ds with
      | nil =>
          rw [List.flatMap_cons] at h
          split at h <;> simp at h
      | cons d ds =>
          have hc := not_surrogate c
          have hd := not_surrogate d
          rw [List.flatMap_cons, List.flatMap_cons] at h
          by_cases hcs : c.toNat < 0x10000
          · by_cases hds : d.toNat < 0x10000
            · rw [if_pos hcs, if_pos hds] at h
              obtain ⟨hunit, hrest⟩ := List.cons.inj h
              rw [Char.toNat_inj.1 (toUInt16_inj hcs hds hunit), ih ds hrest]
            · rw [if_pos hcs, if_neg hds] at h
              have := toUInt16_inj hcs (by omega) (List.cons.inj h).1
              omega
          · by_cases hds : d.toNat < 0x10000
            · rw [if_neg hcs, if_pos hds] at h
              have := toUInt16_inj (by omega) hds (List.cons.inj h).1
              omega
            · rw [if_neg hcs, if_neg hds] at h
              obtain ⟨hhigh, hmore⟩ := List.cons.inj h
              obtain ⟨hlow, hrest⟩ := List.cons.inj hmore
              have hhigh := toUInt16_inj (by omega) (by omega) hhigh
              have hlow := toUInt16_inj (by omega) (by omega) hlow
              rw [Char.toNat_inj.1 (show c.toNat = d.toNat by omega), ih ds hrest]

/-! ## Stored texts -/

/-- What is stored of a string. -/
def textOf (s : JsString) : String :=
  String.ofList ((codePoints s).map fun c => Char.ofNat (scalarOf c))

/-- `s.slice(0, length)`, as it is stored: of a pair that is cut in two U+FFFD is left. -/
def sliceTo (length : Nat) (s : String) : String := textOf ((unitsOf s).take length)

theorem codePoints_single {u : CodeUnit} (h : isHighSurrogate u = false) (rest : JsString) :
    codePoints (u :: rest) = [u] :: codePoints rest := by
  cases rest with
  | nil => rfl
  | cons v rest => rw [codePoints, h, Bool.false_and, if_neg Bool.false_ne_true]

theorem scalarOf_single (u : CodeUnit) :
    scalarOf [u] = if isHighSurrogate u || isLowSurrogate u then 0xfffd else u.toNat :=
  rfl

theorem scalarOf_pair (u v : CodeUnit) :
    scalarOf [u, v] = 0x10000 + (u.toNat - 0xd800) * 0x400 + (v.toNat - 0xdc00) :=
  rfl

/-- The units of one character are read as that character. -/
theorem codePoints_char (c : Char) (rest : JsString) :
    ∃ units, codePoints ((if c.toNat < 0x10000 then [c.toNat.toUInt16]
        else [(0xd800 + (c.toNat - 0x10000) / 0x400).toUInt16,
          (0xdc00 + (c.toNat - 0x10000) % 0x400).toUInt16]) ++ rest) =
      units :: codePoints rest ∧ scalarOf units = c.toNat := by
  have hc := not_surrogate c
  have hnat : ∀ n : Nat, n < 0x10000 → n.toUInt16.toNat = n := fun n hn => by
    simp only [Nat.toUInt16, UInt16.toNat_ofNat']
    omega
  split
  · next hsmall =>
      have hunit := hnat c.toNat hsmall
      have hhigh : isHighSurrogate c.toNat.toUInt16 = false := by
        simp [isHighSurrogate, hunit]
        omega
      have hlow : isLowSurrogate c.toNat.toUInt16 = false := by
        simp [isLowSurrogate, hunit]
        omega
      refine ⟨_, codePoints_single hhigh rest, ?_⟩
      rw [scalarOf_single, hhigh, hlow, Bool.or_false, if_neg Bool.false_ne_true, hunit]
  · next hlarge =>
      have hfirst := hnat (0xd800 + (c.toNat - 0x10000) / 0x400) (by omega)
      have hsecond := hnat (0xdc00 + (c.toNat - 0x10000) % 0x400) (by omega)
      have hpair : (isHighSurrogate (0xd800 + (c.toNat - 0x10000) / 0x400).toUInt16 &&
          isLowSurrogate (0xdc00 + (c.toNat - 0x10000) % 0x400).toUInt16) = true := by
        simp only [isHighSurrogate, isLowSurrogate, hfirst, hsecond, Bool.and_eq_true,
          decide_eq_true_eq]
        omega
      refine ⟨_, by rw [List.cons_append, List.cons_append, List.nil_append, codePoints,
        if_pos hpair], ?_⟩
      rw [scalarOf_pair, hfirst, hsecond]
      omega

theorem textOf_unitsOf (s : String) : textOf (unitsOf s) = s := by
  rw [textOf, unitsOf, ← String.toList_inj, String.toList_ofList]
  induction s.toList with
  | nil => rfl
  | cons c cs ih =>
      rw [List.flatMap_cons]
      generalize (cs.flatMap fun c => if c.toNat < 0x10000 then [c.toNat.toUInt16]
        else [(0xd800 + (c.toNat - 0x10000) / 0x400).toUInt16,
          (0xdc00 + (c.toNat - 0x10000) % 0x400).toUInt16]) = rest at ih ⊢
      obtain ⟨units, hunits, hscalar⟩ := codePoints_char c rest
      rw [hunits, List.map_cons, hscalar, Char.ofNat_toNat, ih]

/-- A text that is not too long is stored whole. -/
theorem sliceTo_of_fits {length : Nat} {s : String} (h : jsLength s ≤ length) :
    sliceTo length s = s := by
  rw [sliceTo, List.take_of_length_le h, textOf_unitsOf]

/-! ## Text in ASCII -/

theorem jsLength_ascii {s : String} (h : ∀ c ∈ s.toList, c.toNat < 0x80) :
    jsLength s = s.toList.length := by
  rw [jsLength, unitsOf]
  generalize s.toList = cs at h
  induction cs with
  | nil => rfl
  | cons c cs ih =>
      have hc := h c List.mem_cons_self
      rw [List.flatMap_cons, if_pos (by omega), List.length_append, List.length_singleton,
        ih fun x hx => h x (List.mem_cons_of_mem _ hx), Nat.add_comm]
      rfl

def IsAscii (s : JsString) : Prop := ∀ u ∈ s, u.toNat < 0x80

theorem not_high_of_lt {u : CodeUnit} (h : u.toNat < 0x80) : isHighSurrogate u = false := by
  simp [isHighSurrogate]
  omega

theorem not_low_of_lt {u : CodeUnit} (h : u.toNat < 0x80) : isLowSurrogate u = false := by
  simp [isLowSurrogate]
  omega

theorem codePoints_ascii {s : JsString} (h : IsAscii s) : codePoints s = s.map fun u => [u] := by
  induction s with
  | nil => rfl
  | cons u s ih =>
      have hs : IsAscii s := fun v hv => h v (List.mem_cons_of_mem _ hv)
      cases s with
      | nil => rfl
      | cons v s =>
          rw [codePoints, not_high_of_lt (h u List.mem_cons_self), Bool.false_and,
            if_neg Bool.false_ne_true, ih hs]
          rfl

/-- No character spans the place where ASCII begins. -/
theorem codePoints_append_ascii {s a : JsString} (h : IsAscii a) :
    codePoints (s ++ a) = codePoints s ++ codePoints a := by
  induction s using codePoints.induct with
  | case1 => rfl
  | case2 u =>
      cases a with
      | nil => rfl
      | cons v a =>
          have hstep : codePoints (u :: v :: a) = [u] :: codePoints (v :: a) := by
            rw [codePoints, not_low_of_lt (h v List.mem_cons_self), Bool.and_false,
              if_neg Bool.false_ne_true]
          exact hstep
  | case3 u v rest hpair ih =>
      rw [List.cons_append, List.cons_append, codePoints, if_pos hpair, ih, codePoints,
        if_pos hpair]
      rfl
  | case4 u v rest hpair ih =>
      rw [List.cons_append, List.cons_append, codePoints, if_neg hpair, ← List.cons_append, ih,
        codePoints, if_neg hpair]
      rfl

def asciiByte (u : CodeUnit) : BitVec 8 := BitVec.ofNat 8 u.toNat

theorem utf8Bytes_ascii {u : CodeUnit} (h : u.toNat < 0x80) :
    utf8Bytes (scalarOf [u]) = [asciiByte u] := by
  have hlone : (isHighSurrogate u || isLowSurrogate u) = false := by
    rw [not_high_of_lt h, not_low_of_lt h, Bool.or_false]
  rw [scalarOf_single, hlone, if_neg Bool.false_ne_true, utf8Bytes, if_pos h]
  rfl

theorem utf8_append_ascii {s a : JsString} (h : IsAscii a) :
    utf8 (s ++ a) = utf8 s ++ a.map asciiByte := by
  have hbytes : (codePoints a).flatMap (fun c => utf8Bytes (scalarOf c)) = a.map asciiByte := by
    rw [codePoints_ascii h, List.flatMap_map, List.map_eq_flatMap, List.flatMap_def,
      List.flatMap_def, List.map_congr_left fun u hu => utf8Bytes_ascii (h u hu)]
  rw [utf8, codePoints_append_ascii h, List.flatMap_append, hbytes]
  rfl

theorem asciiByte_inj {u v : CodeUnit} (hu : u.toNat < 0x80) (hv : v.toNat < 0x80)
    (h : asciiByte u = asciiByte v) : u = v := by
  have hnat := congrArg BitVec.toNat h
  simp only [asciiByte, BitVec.toNat_ofNat] at hnat
  exact UInt16.toNat_inj.1 (by omega)

end CleanStack.Kit
