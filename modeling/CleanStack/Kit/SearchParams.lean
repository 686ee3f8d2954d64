import CleanStack.Kit.Net
import CleanStack.Lib.Url

/-!
# Parameters in a URL

`encodeURIComponent` and `URLSearchParams`. A value is written in percent form, and a
browser that follows the link may put more of it in percent form. Read back, an ASCII
value is the one that was written.
-/

namespace CleanStack.Kit

open CleanStack.Lib

def isUnreserved (c : Char) : Bool :=
  c.isAlphanum || ['-', '_', '.', '!', '~', '*', '(', ')'].contains c || c.toNat == 0x27

def encodeURIComponent (text : List Char) : List Char :=
  percentEncode (fun c => !isUnreserved c) text

/-! ## Reading -/

def hexByte? (b : UInt8) : Option Nat :=
  if 0x30 ≤ b.toNat && b.toNat ≤ 0x39 then some (b.toNat - 0x30)
  else if 0x41 ≤ b.toNat && b.toNat ≤ 0x46 then some (b.toNat - 0x37)
  else if 0x61 ≤ b.toNat && b.toNat ≤ 0x66 then some (b.toNat - 0x57)
  else none

def percentDecode : List UInt8 → List UInt8
  | [] => []
  | [b] => [b]
  | [b, c] => [b, c]
  | b :: c :: d :: rest =>
      if b = 0x25 then
        match hexByte? c, hexByte? d with
        | some high, some low => (high * 16 + low).toUInt8 :: percentDecode rest
        | _, _ => b :: percentDecode (c :: d :: rest)
      else b :: percentDecode (c :: d :: rest)

/-- A character that is not complete yet: the bytes it still needs, its bits so far, and
the range of the next byte. -/
structure Utf8Pending where
  left : Nat
  point : Nat
  lower : Nat := 0x80
  upper : Nat := 0xbf

def replacement : Char := Char.ofNat 0xfffd

def utf8Start (b : Nat) : List Char × Option Utf8Pending :=
  if b < 0x80 then ([Char.ofNat b], none)
  else if 0xc2 ≤ b && b ≤ 0xdf then ([], some { left := 1, point := b % 0x20 })
  else if 0xe0 ≤ b && b ≤ 0xef then
    ([], some {
      left := 2
      point := b % 0x10
      lower := if b = 0xe0 then 0xa0 else 0x80
      upper := if b = 0xed then 0x9f else 0xbf })
  else if 0xf0 ≤ b && b ≤ 0xf4 then
    ([], some {
      left := 3
      point := b % 0x8
      lower := if b = 0xf0 then 0x90 else 0x80
      upper := if b = 0xf4 then 0x8f else 0xbf })
  else ([replacement], none)

/-- A byte that does not continue a character begins one of its own. -/
def utf8Decode : Option Utf8Pending → List UInt8 → List Char
  | none, [] => []
  | some _, [] => [replacement]
  | none, b :: rest => (utf8Start b.toNat).1 ++ utf8Decode (utf8Start b.toNat).2 rest
  | some pending, b :: rest =>
      if pending.lower ≤ b.toNat && b.toNat ≤ pending.upper then
        let point := pending.point * 0x40 + b.toNat % 0x40
        if pending.left = 1 then Char.ofNat point :: utf8Decode none rest
        else utf8Decode (some { left := pending.left - 1, point }) rest
      else replacement :: ((utf8Start b.toNat).1 ++ utf8Decode (utf8Start b.toNat).2 rest)

def decodeFormText (text : List Char) : List Char :=
  utf8Decode none (percentDecode
    ((text.map fun c => if c = '+' then ' ' else c).flatMap String.utf8EncodeChar))

/-- `new URLSearchParams(search)`. -/
def searchParams (search : List Char) : List (List Char × List Char) :=
  let text := match search with
    | '?' :: rest => rest
    | _ => search
  ((splitOnChar '&' text).filter (· ≠ [])).map fun part =>
    (decodeFormText (part.takeWhile (· != '=')),
      decodeFormText ((part.dropWhile (· != '=')).drop 1))

/-- `params.get(name)`. -/
def getParam (name : List Char) (params : List (List Char × List Char)) : Option (List Char) :=
  (params.find? fun entry => entry.1 == name).map Prod.snd

/-! ## Reading what was written -/

def byteOf (c : Char) : UInt8 := c.toNat.toUInt8

/-- Which texts read as `text`: some of its characters stand in percent form, and among
them the ones that would not read as themselves. -/
inductive Spells : List Char → List Char → Prop
  | nil : Spells [] []
  | plain {c : Char} {spelled text : List Char} (ascii : c.toNat < 0x80)
      (itself : ['%', '+', '&', '=', '#'].contains c = false) (rest : Spells spelled text) :
      Spells (c :: spelled) (c :: text)
  | percent {c : Char} {spelled text : List Char} (ascii : c.toNat < 0x80)
      (rest : Spells spelled text) : Spells (percentByte (byteOf c) ++ spelled) (c :: text)

theorem utf8EncodeChar_ascii {c : Char} (h : c.toNat < 0x80) :
    String.utf8EncodeChar c = [byteOf c] := by
  have hsize : c.utf8Size = 1 := by
    rw [Char.utf8Size_eq_one_iff]
    show c.toNat ≤ 127
    omega
  rw [String.utf8EncodeChar_eq_singleton hsize, byteOf]
  rfl

theorem toNat_byteOf {c : Char} (h : c.toNat < 0x80) : (byteOf c).toNat = c.toNat := by
  rw [byteOf, Nat.toUInt8, UInt8.toNat_ofNat']
  omega

theorem percentEncode_cons (set : Char → Bool) (c : Char) (text : List Char) :
    percentEncode set (c :: text) = percentEncode set [c] ++ percentEncode set text := by
  rw [← List.singleton_append, percentEncode, List.flatMap_append]
  rfl

theorem percentEncode_append (set : Char → Bool) (x y : List Char) :
    percentEncode set (x ++ y) = percentEncode set x ++ percentEncode set y :=
  List.flatMap_append

theorem percentEncode_one {set : Char → Bool} {c : Char} (ascii : c.toNat < 0x80) :
    percentEncode set [c] = if set c then percentByte (byteOf c) else [c] := by
  rw [percentEncode, List.flatMap_singleton, utf8EncodeChar_ascii ascii, List.flatMap_singleton]

theorem spells_encodeURIComponent {text : List Char} (h : ∀ c ∈ text, c.toNat < 0x80) :
    Spells (encodeURIComponent text) text := by
  induction text with
  | nil => exact .nil
  | cons c text ih =>
    obtain ⟨hc, htext⟩ := List.forall_mem_cons.1 h
    rw [encodeURIComponent, percentEncode_cons, percentEncode_one hc]
    split
    · exact .percent hc (ih htext)
    · next hset =>
      refine .plain hc ?_ (ih htext)
      rw [Bool.eq_false_iff]
      intro hmem
      have hall : ['%', '+', '&', '=', '#'].all fun c => !isUnreserved c := by decide
      exact hset (List.all_eq_true.1 hall c (List.contains_iff_mem.1 hmem))

/-- What follows a link may be put in percent form on the way. -/
theorem Spells.encoded {spelled text : List Char} (h : Spells spelled text)
    (set : Char → Bool) (hset : percentChars.all fun c => !set c) :
    Spells (percentEncode set spelled) text := by
  induction h with
  | nil => exact .nil
  | plain ascii itself _ ih =>
    rw [percentEncode_cons, percentEncode_one ascii]
    split
    · exact .percent ascii ih
    · exact .plain ascii itself ih
  | percent ascii _ ih =>
    rw [percentEncode_append, percentEncode_kept fun c hc => by
      simpa using List.all_eq_true.1 hset c (percentByte_mem hc)]
    exact .percent ascii ih

theorem hexByte_upperHex {n : Nat} (h : n < 16) : hexByte? (byteOf (upperHex n)) = some n := by
  revert n
  decide

theorem percentDecode_byte (b : UInt8) (rest : List UInt8) :
    percentDecode (((percentByte b).map byteOf) ++ rest) = b :: percentDecode rest := by
  have hb := b.toNat_lt
  have hbytes : (percentByte b).map byteOf ++ rest =
      0x25 :: byteOf (upperHex (b.toNat / 16)) :: byteOf (upperHex (b.toNat % 16)) :: rest := rfl
  have hvalue : (b.toNat / 16 * 16 + b.toNat % 16).toUInt8 = b := by
    rw [Nat.div_add_mod']
    exact UInt8.ofNat_toNat
  rw [hbytes, percentDecode, if_pos rfl, hexByte_upperHex (by omega), hexByte_upperHex (by omega)]
  show (b.toNat / 16 * 16 + b.toNat % 16).toUInt8 :: percentDecode rest = _
  rw [hvalue]

theorem percentDecode_plain {b : UInt8} (h : b ≠ 0x25) (rest : List UInt8) :
    percentDecode (b :: rest) = b :: percentDecode rest := by
  rcases rest with _ | ⟨c, _ | ⟨d, rest⟩⟩
  · rfl
  · rfl
  · rw [percentDecode, if_neg h]

theorem percentChars_ascii : percentChars.all fun c => c.toNat < 0x80 && c != '+' := by decide

theorem flatMap_utf8_ascii {text : List Char} (h : ∀ c ∈ text, c.toNat < 0x80) :
    text.flatMap String.utf8EncodeChar = text.map byteOf := by
  induction text with
  | nil => rfl
  | cons c text ih =>
    obtain ⟨hc, htext⟩ := List.forall_mem_cons.1 h
    rw [List.flatMap_cons, utf8EncodeChar_ascii hc, ih htext]
    rfl

theorem utf8Decode_ascii {text : List Char} (h : ∀ c ∈ text, c.toNat < 0x80) :
    utf8Decode none (text.map byteOf) = text := by
  induction text with
  | nil => rfl
  | cons c text ih =>
    obtain ⟨hc, htext⟩ := List.forall_mem_cons.1 h
    have hstart : utf8Start (byteOf c).toNat = ([c], none) := by
      rw [toNat_byteOf hc, utf8Start, if_pos hc, Char.ofNat_toNat]
    rw [List.map_cons, utf8Decode, hstart, ih htext, List.singleton_append]

theorem Spells.ascii {spelled text : List Char} (h : Spells spelled text) :
    ∀ c ∈ text, c.toNat < 0x80 := by
  induction h with
  | nil => simp
  | plain ascii _ _ ih => exact List.forall_mem_cons.2 ⟨ascii, ih⟩
  | percent ascii _ ih => exact List.forall_mem_cons.2 ⟨ascii, ih⟩

theorem Spells.bytes {spelled text : List Char} (h : Spells spelled text) :
    percentDecode ((spelled.map fun c => if c = '+' then ' ' else c).flatMap
      String.utf8EncodeChar) = text.map byteOf := by
  induction h with
  | nil => rfl
  | @plain c spelled text ascii itself _ ih =>
    simp only [List.contains_cons, List.contains_nil, Bool.or_false, Bool.or_eq_false_iff,
      beq_eq_false_iff_ne] at itself
    have hpercent : byteOf c ≠ 0x25 := by
      intro heq
      have hnat := congrArg UInt8.toNat heq
      rw [toNat_byteOf ascii] at hnat
      exact itself.1 (Char.toNat_inj.1 hnat)
    rw [List.map_cons, if_neg itself.2.1, List.flatMap_cons, utf8EncodeChar_ascii ascii,
      List.singleton_append, percentDecode_plain hpercent, ih, List.map_cons]
  | @percent c spelled text ascii _ ih =>
    have hchars : ∀ d ∈ percentByte (byteOf c), d.toNat < 0x80 ∧ d ≠ '+' := fun d hd => by
      simpa using List.all_eq_true.1 percentChars_ascii d (percentByte_mem hd)
    have hsame : (percentByte (byteOf c)).map (fun d => if d = '+' then ' ' else d) =
        percentByte (byteOf c) := by
      refine (List.map_congr_left fun d hd => ?_).trans (List.map_id _)
      rw [if_neg (hchars d hd).2]
      rfl
    rw [List.map_append, hsame, List.flatMap_append,
      flatMap_utf8_ascii fun d hd => (hchars d hd).1, percentDecode_byte, ih, List.map_cons]

/-- Reading back gives the text that was spelled. -/
theorem Spells.decoded {spelled text : List Char} (h : Spells spelled text) :
    decodeFormText spelled = text := by
  rw [decodeFormText, h.bytes, utf8Decode_ascii h.ascii]

/-- None of the marks that part a query stands in a spelling. -/
theorem Spells.unmarked {spelled text : List Char} (h : Spells spelled text) :
    ∀ c ∈ spelled, c ≠ '&' ∧ c ≠ '=' ∧ c ≠ '#' := by
  induction h with
  | nil => simp
  | plain ascii itself _ ih =>
    simp only [List.contains_cons, List.contains_nil, Bool.or_false, Bool.or_eq_false_iff,
      beq_eq_false_iff_ne] at itself
    exact List.forall_mem_cons.2 ⟨itself.2.2, ih⟩
  | percent ascii _ ih =>
    intro d hd
    rcases List.mem_append.1 hd with hd | hd
    · have hall : percentChars.all fun c => c != '&' && c != '=' && c != '#' := by decide
      have hmarks := List.all_eq_true.1 hall d (percentByte_mem hd)
      simpa [and_assoc] using hmarks
    · exact ih d hd

end CleanStack.Kit
