import CleanStack.Kit.JsValue
import CleanStack.Lib.Delimited

/-!
# The canonical text of a JSON value can be read back

`canonicalize` is what the audit log hashes, so what a hash says about a record
is what its canonical text says. Here that is everything but the order of
object keys: two JSON values with the same canonical text are `SameJson`.

The proof goes down the two values together. Their first characters tell which
kind of value it is; a string ends at the first quote that is not escaped; a
number ends where no character of a number follows; arrays and objects are
closed lists of what has been read already.
-/

namespace CleanStack.Kit

open Lib

/-! ## JSON values -/

mutual

/-- A value `JSON.parse` can return, with finite numbers: no `undefined`, and an
object has each of its keys once. -/
def isJson : JsValue → Bool
  | .undefined => false
  | .null => true
  | .bool _ => true
  | .num _ => true
  | .infinity _ => false
  | .str _ => true
  | .arr items => itemsJson items
  | .obj fields => decide (fields.map Prod.fst).Nodup && fieldsJson fields

def itemsJson : List JsValue → Bool
  | [] => true
  | v :: vs => isJson v && itemsJson vs

def fieldsJson : List (String × JsValue) → Bool
  | [] => true
  | (_, v) :: fs => isJson v && fieldsJson fs

end

/-- A JSON value. -/
structure Json where
  value : JsValue
  json : isJson value = true

theorem itemsJson_iff (items : List JsValue) :
    itemsJson items = true ↔ ∀ v ∈ items, isJson v = true := by
  induction items with
  | nil => simp [itemsJson]
  | cons v vs ih => simp [itemsJson, ih]

theorem fieldsJson_iff (fields : List (String × JsValue)) :
    fieldsJson fields = true ↔ ∀ f ∈ fields, isJson f.2 = true := by
  induction fields with
  | nil => simp [fieldsJson]
  | cons f fs ih => simp [fieldsJson, ih]

theorem isJson_arr {items : List JsValue} (h : isJson (.arr items) = true) :
    ∀ v ∈ items, isJson v = true := by
  rw [isJson] at h
  exact (itemsJson_iff items).1 h

theorem isJson_obj {fields : List (String × JsValue)} (h : isJson (.obj fields) = true) :
    ∀ f ∈ fields, isJson f.2 = true := by
  rw [isJson, Bool.and_eq_true] at h
  exact (fieldsJson_iff fields).1 h.2

mutual

/-- Equal up to the order of the keys of objects, at every depth. -/
inductive SameJson : JsValue → JsValue → Prop
  | null : SameJson .null .null
  | bool (b : Bool) : SameJson (.bool b) (.bool b)
  | num (n : JsNumber) : SameJson (.num n) (.num n)
  | infinity (negative : Bool) : SameJson (.infinity negative) (.infinity negative)
  | str (s : String) : SameJson (.str s) (.str s)
  | arr {items items' : List JsValue} (h : List.Forall₂ SameJson items items') :
      SameJson (.arr items) (.arr items')
  | obj {fields listed fields' listed' : List (String × JsValue)}
      (hp : fields.Perm listed) (hp' : fields'.Perm listed') (h : SameFields listed listed') :
      SameJson (.obj fields) (.obj fields')

inductive SameFields : List (String × JsValue) → List (String × JsValue) → Prop
  | nil : SameFields [] []
  | cons (k : String) {v w : JsValue} {fields fields' : List (String × JsValue)}
      (h : SameJson v w) (hrest : SameFields fields fields') :
      SameFields ((k, v) :: fields) ((k, w) :: fields')

end

theorem sameFields_of_forall₂ {fields fields' : List (String × JsValue)}
    (h : List.Forall₂ (fun f g => f.1 = g.1 ∧ SameJson f.2 g.2) fields fields') :
    SameFields fields fields' := by
  induction h with
  | nil => exact .nil
  | @cons f g _ _ hfg _ ih =>
      obtain ⟨k, v⟩ := f
      obtain ⟨k', w⟩ := g
      obtain ⟨hkey, hsame⟩ := hfg
      cases hkey
      exact .cons k hsame ih

theorem SameFields.field {fields fields' : List (String × JsValue)}
    (h : SameFields fields fields') {k : String} {v : JsValue} (hv : (k, v) ∈ fields) :
    ∃ w, (k, w) ∈ fields' ∧ SameJson v w := by
  induction fields generalizing fields' with
  | nil => cases hv
  | cons f fields ih =>
      cases h with
      | cons k' hsame hrest =>
          rcases List.mem_cons.1 hv with heq | hv
          · cases heq
            exact ⟨_, List.mem_cons_self, hsame⟩
          · obtain ⟨w, hw, hsame⟩ := ih hrest hv
            exact ⟨w, List.mem_cons_of_mem _ hw, hsame⟩

/-- What one object has under a key, the other has too. -/
theorem SameJson.field {fields fields' : List (String × JsValue)}
    (h : SameJson (.obj fields) (.obj fields')) {k : String} {v : JsValue}
    (hv : (k, v) ∈ fields) : ∃ w, (k, w) ∈ fields' ∧ SameJson v w := by
  cases h with
  | obj hp hp' h =>
      obtain ⟨w, hw, hsame⟩ := h.field (hp.mem_iff.1 hv)
      exact ⟨w, hp'.mem_iff.2 hw, hsame⟩

/-- The values the two have under one key, where the second has it once. -/
theorem SameJson.lookup {fields fields' : List (String × JsValue)}
    (h : SameJson (.obj fields) (.obj fields')) (hkeys : (fields'.map Prod.fst).Nodup)
    {k : String} {v w : JsValue} (hv : fields.lookup k = some v)
    (hw : fields'.lookup k = some w) : SameJson v w := by
  have hmem : ∀ {l : List (String × JsValue)} {x : JsValue}, l.lookup k = some x → (k, x) ∈ l := by
    intro l x hx
    obtain ⟨before, rest, rfl, _⟩ := List.lookup_eq_some_iff.1 hx
    exact List.mem_append_right _ List.mem_cons_self
  obtain ⟨x, hx, hsame⟩ := h.field (hmem hv)
  have hpair : (k, x) = (k, w) := List.inj_on_of_nodup_map hkeys hx (hmem hw) rfl
  rw [← (Prod.mk.inj hpair).2]
  exact hsame

/-! ## The text, constructor by constructor -/

def text (v : JsValue) : List Char := (canonicalize v).toList

def fieldText (f : String × JsValue) : List Char := (quote f.1).toList ++ ':' :: text f.2

/-- The fields of an object in the order they are printed. -/
def sortKeys (fields : List (String × JsValue)) : List (String × JsValue) :=
  fields.insertionSort fun a b => stringLe a.1 b.1 = true

theorem canonicalizeItems_eq (items : List JsValue) :
    canonicalizeItems items = items.map canonicalize := by
  induction items with
  | nil => rfl
  | cons v vs ih => rw [canonicalizeItems, ih, List.map_cons]

theorem canonicalizeFields_eq (fields : List (String × JsValue)) :
    canonicalizeFields fields = fields.map fun f => (f.1, canonicalize f.2) := by
  induction fields with
  | nil => rfl
  | cons f fs ih => rw [canonicalizeFields, ih, List.map_cons]

theorem toList_joinWith (c : Char) (parts : List String) :
    (joinWith (String.ofList [c]) parts).toList = separated c (parts.map String.toList) := by
  induction parts with
  | nil => rfl
  | cons s rest ih =>
      cases rest with
      | nil => rfl
      | cons t rest =>
          rw [joinWith, String.toList_append, String.toList_append, ih]
          simp [separated]

theorem toList_quote (s : String) :
    (quote s).toList = '"' :: s.toList.flatMap escapeChar ++ ['"'] :=
  String.toList_ofList

theorem text_arr (items : List JsValue) :
    text (.arr items) = '[' :: separated ',' (items.map text) ++ [']'] := by
  have hjoin := toList_joinWith ',' (canonicalizeItems items)
  rw [canonicalizeItems_eq, List.map_map] at hjoin
  show ("[" ++ joinWith "," (canonicalizeItems items) ++ "]").toList = _
  rw [String.toList_append, String.toList_append, canonicalizeItems_eq]
  show ['['] ++ (joinWith (String.ofList [',']) (items.map canonicalize)).toList ++ [']'] = _
  rw [hjoin]
  rfl

theorem sortFields_eq (fields : List (String × JsValue)) :
    sortFields (canonicalizeFields fields) =
      (sortKeys fields).map fun f => (f.1, canonicalize f.2) := by
  rw [canonicalizeFields_eq, sortFields, sortKeys]
  have hmap := List.map_insertionSort (r := fun a b : String × JsValue => stringLe a.1 b.1 = true)
    (s := fun a b : String × String => stringLe a.1 b.1 = true)
    (fun f => (f.1, canonicalize f.2)) fields fun _ _ _ _ => Iff.rfl
  rw [hmap]

theorem text_obj (fields : List (String × JsValue)) :
    text (.obj fields) =
      '\x7b' :: separated ',' ((sortKeys fields).map fieldText) ++ ['\x7d'] := by
  have hjoin := toList_joinWith ','
    ((sortFields (canonicalizeFields fields)).map fun f => quote f.1 ++ ":" ++ f.2)
  rw [sortFields_eq, List.map_map, List.map_map] at hjoin
  show ("\x7b" ++ joinWith "," ((sortFields (canonicalizeFields fields)).map fun f =>
    quote f.1 ++ ":" ++ f.2) ++ "\x7d").toList = _
  rw [String.toList_append, String.toList_append, sortFields_eq, List.map_map]
  show ['\x7b'] ++ (joinWith (String.ofList [',']) _).toList ++ ['\x7d'] = _
  rw [hjoin]
  have hfields : (sortKeys fields).map (String.toList ∘ (fun f : String × String =>
      quote f.1 ++ ":" ++ f.2) ∘ fun f => (f.1, canonicalize f.2)) =
      (sortKeys fields).map fieldText := by
    refine List.map_congr_left fun f _ => ?_
    show (quote f.1 ++ ":" ++ canonicalize f.2).toList = _
    rw [String.toList_append, String.toList_append, fieldText, List.append_assoc]
    rfl
  rw [hfields]
  rfl

/-! ## Strings -/

def digitValue (c : Char) : Nat := if c.toNat < 58 then c.toNat - 48 else c.toNat - 87

/-- The character an escape sequence stands for, after its backslash. -/
def readEscape : List Char → Option (Char × List Char)
  | 'b' :: t => some (Char.ofNat 8, t)
  | 't' :: t => some (Char.ofNat 9, t)
  | 'n' :: t => some (Char.ofNat 10, t)
  | 'f' :: t => some (Char.ofNat 12, t)
  | 'r' :: t => some (Char.ofNat 13, t)
  | 'u' :: _ :: _ :: h :: l :: t => some (Char.ofNat (16 * digitValue h + digitValue l), t)
  | c :: t => some (c, t)
  | [] => none

/-- One character of a string literal, read back. -/
def readChar : List Char → Option (Char × List Char)
  | [] => none
  | c :: t => if c = '\\' then readEscape t else some (c, t)

theorem digitValue_hexDigit :
    ∀ n < 32, 16 * digitValue (hexDigit (n / 16)) + digitValue (hexDigit (n % 16)) = n := by
  decide

theorem eq_ofNat_of_toNat {c : Char} {n : Nat} (h : c.toNat = n) : c = Char.ofNat n := by
  rw [← h, Char.ofNat_toNat]

theorem readChar_escapeChar (c : Char) (t : List Char) :
    readChar (escapeChar c ++ t) = some (c, t) := by
  unfold escapeChar
  split
  · next h => rw [h]; rfl
  split
  · next h => rw [h]; rfl
  split
  · next h => rw [eq_ofNat_of_toNat h]; rfl
  split
  · next h => rw [eq_ofNat_of_toNat h]; rfl
  split
  · next h => rw [eq_ofNat_of_toNat h]; rfl
  split
  · next h => rw [eq_ofNat_of_toNat h]; rfl
  split
  · next h => rw [eq_ofNat_of_toNat h]; rfl
  split
  · next h =>
      show some (Char.ofNat (16 * digitValue (hexDigit (c.toNat / 16)) +
        digitValue (hexDigit (c.toNat % 16))), t) = some (c, t)
      rw [digitValue_hexDigit c.toNat h, Char.ofNat_toNat]
  · next hslash _ _ _ _ _ _ => exact if_neg hslash

theorem escapeChar_ne_quote (c : Char) (t u : List Char) : escapeChar c ++ t ≠ '"' :: u := by
  intro h
  have hread := readChar_escapeChar c t
  rw [h] at hread
  have hquote : c = '"' := (Prod.mk.inj (Option.some.inj hread)).1.symm
  rw [hquote] at h
  exact absurd (List.cons.inj h).1 (by decide)

/-- A string literal can be read back whatever follows it. -/
theorem reads_quote {a b : String} {r s : List Char}
    (h : (quote a).toList ++ r = (quote b).toList ++ s) : a = b ∧ r = s := by
  rw [toList_quote, toList_quote] at h
  simp only [List.cons_append, List.append_assoc, List.cons.injEq, true_and,
    List.nil_append] at h
  have hread : ∀ c ∈ a.toList,
      Reads escapeChar (fun _ => True) (fun _ => True) Eq c :=
    fun c _ => reads_of_reader readChar_escapeChar _ _ c
  obtain ⟨hchars, hr⟩ := reads_closed (fun _ _ => trivial) escapeChar_ne_quote hread
    (fun _ _ => trivial) h
  rw [List.forall₂_eq_eq_eq] at hchars
  exact ⟨String.toList_inj.1 hchars, hr⟩

/-! ## Values -/

/-- What may follow a value: nothing a number could go on with. -/
def Ends (r : List Char) : Prop := ∀ c ∈ r.head?, isNumberChar c = false

theorem ends_cons {c : Char} (h : isNumberChar c = false) (t : List Char) : Ends (c :: t) := by
  intro d hd
  cases hd
  exact h

/-- The kind of a value, by the first character of its text. -/
def kindOf (c : Char) : Nat :=
  if c = 'n' then 0
  else if c = 't' ∨ c = 'f' then 1
  else if c = '"' then 2
  else if c = '[' then 3
  else if c = '\x7b' then 4
  else if isNumberChar c then 5
  else 6

def JsValue.kind : JsValue → Nat
  | .undefined => 0
  | .null => 0
  | .infinity _ => 0
  | .bool _ => 1
  | .str _ => 2
  | .arr _ => 3
  | .obj _ => 4
  | .num _ => 5

theorem kindOf_number {c : Char} (h : isNumberChar c = true) : kindOf c = 5 := by
  have hne : ∀ d : Char, isNumberChar d = false → c ≠ d := by
    intro d hd heq
    rw [heq, hd] at h
    exact absurd h (by decide)
  unfold kindOf
  rw [if_neg (hne 'n' (by decide)), if_neg (not_or.2 ⟨hne 't' (by decide), hne 'f' (by decide)⟩),
    if_neg (hne '"' (by decide)), if_neg (hne '[' (by decide)),
    if_neg (hne '\x7b' (by decide)), if_pos h]

theorem text_head (v : JsValue) : ∃ c t, text v = c :: t ∧ kindOf c = v.kind := by
  cases v with
  | undefined => exact ⟨'n', _, rfl, rfl⟩
  | null => exact ⟨'n', _, rfl, rfl⟩
  | infinity negative =>
      rw [text, canonicalize]
      exact ⟨'n', _, rfl, rfl⟩
  | bool b =>
      cases b with
      | true => exact ⟨'t', _, rfl, rfl⟩
      | false => exact ⟨'f', _, rfl, rfl⟩
  | num n =>
      obtain ⟨c, t, hchars⟩ := List.exists_cons_of_ne_nil
        (fun h => n.wf.1 (String.toList_eq_nil_iff.1 h))
      have hall := n.wf.2
      rw [hchars, List.all_cons, Bool.and_eq_true] at hall
      exact ⟨c, t, hchars, kindOf_number hall.1⟩
  | str s => exact ⟨'"', _, toList_quote s, rfl⟩
  | arr items => exact ⟨'[', _, text_arr items, rfl⟩
  | obj fields => exact ⟨'\x7b', _, text_obj fields, rfl⟩

theorem kind_eq {v w : JsValue} {r s : List Char} (h : text v ++ r = text w ++ s) :
    v.kind = w.kind := by
  obtain ⟨c, t, hv, hc⟩ := text_head v
  obtain ⟨d, u, hw, hd⟩ := text_head w
  rw [hv, hw] at h
  rw [← hc, ← hd, (List.cons.inj h).1]

/-- A bracket closes no value. -/
theorem text_ne_close {v : JsValue} {t u : List Char} : text v ++ t ≠ ']' :: u := by
  intro h
  obtain ⟨c, rest, hv, hc⟩ := text_head v
  rw [hv] at h
  rw [(List.cons.inj h).1] at hc
  have hnone : kindOf ']' = 6 := by decide
  rw [hnone] at hc
  cases v <;> simp [JsValue.kind] at hc

theorem fieldText_ne_close (f : String × JsValue) (t u : List Char) :
    fieldText f ++ t ≠ '\x7d' :: u := by
  rw [fieldText, toList_quote]
  intro h
  exact absurd (List.cons.inj h).1 (by decide)

abbrev ReadsValue : JsValue → Prop :=
  Reads text Ends (fun w => isJson w = true) SameJson

theorem reads_num (n : JsNumber) : ReadsValue (.num n) := by
  intro w r s _ hr hs h
  have hkind := kind_eq h
  cases w with
  | num m =>
      obtain ⟨hsame, hrest⟩ := run_unique n.wf.2 m.wf.2 hr hs h
      have hnum : n = m := by
        cases n
        cases m
        cases String.toList_inj.1 hsame
        rfl
      rw [hnum]
      exact ⟨.num m, hrest⟩
  | undefined | infinity _ | null | bool _ | str _ | arr _ | obj _ => simp [JsValue.kind] at hkind

theorem reads_str (t : String) : ReadsValue (.str t) := by
  intro w r s _ _ _ h
  have hkind := kind_eq h
  cases w with
  | str u =>
      obtain ⟨hsame, hrest⟩ := reads_quote h
      rw [hsame]
      exact ⟨.str u, hrest⟩
  | undefined | infinity _ | null | bool _ | num _ | arr _ | obj _ => simp [JsValue.kind] at hkind

theorem reads_bool (b : Bool) : ReadsValue (.bool b) := by
  intro w r s _ _ _ h
  have hkind := kind_eq h
  cases w with
  | bool c =>
      cases b <;> cases c
      · exact ⟨.bool false, List.append_cancel_left h⟩
      · exact absurd (List.cons.inj h).1 (by decide)
      · exact absurd (List.cons.inj h).1 (by decide)
      · exact ⟨.bool true, List.append_cancel_left h⟩
  | undefined | infinity _ | null | num _ | str _ | arr _ | obj _ => simp [JsValue.kind] at hkind

theorem reads_null : ReadsValue .null := by
  intro w r s hw _ _ h
  have hkind := kind_eq h
  cases w with
  | null => exact ⟨.null, List.append_cancel_left h⟩
  | undefined => exact absurd hw (by decide)
  | infinity negative => cases hw
  | bool _ | num _ | str _ | arr _ | obj _ => simp [JsValue.kind] at hkind

theorem reads_arr {items : List JsValue} (hitems : ∀ v ∈ items, ReadsValue v) :
    ReadsValue (.arr items) := by
  intro w r s hw _ _ h
  have hkind := kind_eq h
  cases w with
  | arr items' =>
      rw [text_arr, text_arr, List.cons_append, List.cons_append, List.append_assoc,
        List.append_assoc] at h
      obtain ⟨hsame, hrest⟩ := reads_list (by decide) (fun t => ends_cons (by decide) t)
        (fun t => ends_cons (by decide) t) (fun _ _ _ => text_ne_close) hitems
        (isJson_arr hw) (List.cons.inj h).2
      exact ⟨.arr hsame, hrest⟩
  | undefined | infinity _ | null | bool _ | num _ | str _ | obj _ => simp [JsValue.kind] at hkind

theorem reads_field {f : String × JsValue} (hf : ReadsValue f.2) :
    Reads fieldText Ends (fun g => isJson g.2 = true)
      (fun f g => f.1 = g.1 ∧ SameJson f.2 g.2) f := by
  intro g r s hg hr hs h
  rw [fieldText, fieldText, List.append_assoc, List.append_assoc] at h
  obtain ⟨hkey, hrest⟩ := reads_quote h
  obtain ⟨hsame, hr⟩ := hf g.2 r s hg hr hs (List.cons.inj hrest).2
  exact ⟨⟨hkey, hsame⟩, hr⟩

theorem reads_obj {fields : List (String × JsValue)}
    (hfields : ∀ f ∈ fields, ReadsValue f.2) : ReadsValue (.obj fields) := by
  intro w r s hw _ _ h
  have hkind := kind_eq h
  cases w with
  | obj fields' =>
      have hperm : (sortKeys fields).Perm fields := List.perm_insertionSort _ fields
      have hperm' : (sortKeys fields').Perm fields' := List.perm_insertionSort _ fields'
      rw [text_obj, text_obj, List.cons_append, List.cons_append, List.append_assoc,
        List.append_assoc] at h
      obtain ⟨hsame, hrest⟩ := reads_list (by decide) (fun t => ends_cons (by decide) t)
        (fun t => ends_cons (by decide) t) fieldText_ne_close
        (fun f hf => reads_field (hfields f (hperm.mem_iff.1 hf)))
        (fun g hg => isJson_obj hw g (hperm'.mem_iff.1 hg)) (List.cons.inj h).2
      exact ⟨.obj hperm.symm hperm'.symm (sameFields_of_forall₂ hsame), hrest⟩
  | undefined | infinity _ | null | bool _ | num _ | str _ | arr _ => simp [JsValue.kind] at hkind

mutual

theorem reads_value : ∀ v, isJson v = true → ReadsValue v
  | .undefined, h => absurd h (by decide)
  | .infinity _, h => absurd h Bool.false_ne_true
  | .null, _ => reads_null
  | .bool b, _ => reads_bool b
  | .num n, _ => reads_num n
  | .str s, _ => reads_str s
  | .arr items, h => reads_arr (reads_values items (isJson_arr h))
  | .obj fields, h => reads_obj (reads_fields fields (isJson_obj h))

theorem reads_values : ∀ items : List JsValue, (∀ v ∈ items, isJson v = true) →
    ∀ v ∈ items, ReadsValue v
  | [], _ => fun _ hv => nomatch hv
  | v :: vs, h => List.forall_mem_cons.2
      ⟨reads_value v (h v List.mem_cons_self),
        reads_values vs fun w hw => h w (List.mem_cons_of_mem _ hw)⟩

theorem reads_fields : ∀ fields : List (String × JsValue),
    (∀ f ∈ fields, isJson f.2 = true) → ∀ f ∈ fields, ReadsValue f.2
  | [], _ => fun _ hf => nomatch hf
  | (k, v) :: fs, h => List.forall_mem_cons.2
      ⟨reads_value v (h (k, v) List.mem_cons_self),
        reads_fields fs fun g hg => h g (List.mem_cons_of_mem _ hg)⟩

end

/-- Two JSON values with the same canonical text are the same up to key order. -/
theorem sameJson_of_canonicalize {v w : JsValue} (hv : isJson v = true)
    (hw : isJson w = true) (h : canonicalize v = canonicalize w) : SameJson v w := by
  have hnil : Ends [] := fun _ hc => nomatch hc
  have htext : text v ++ [] = text w ++ [] := by rw [text, text, h]
  exact (reads_value v hv w [] [] hw hnil hnil htext).1

end CleanStack.Kit
