import CleanStack.Kit.CanonicalJson

/-!
# What `JSON.parse` makes of a `jsonb` column

A column holds numerals of any size, and one beyond the largest double is read
as an infinity. Printed it is `null`, so the canonical text of what was read
does not tell the two apart, and that is all it does not tell: put `null` where
the infinities stand, and values that print alike are the same.
-/

namespace CleanStack.Kit

/-! ## Values and their parts -/

def JsValue.isLeaf : JsValue → Bool
  | .arr _ => false
  | .obj _ => false
  | _ => true

mutual

/-- To show something of every value, go from its parts to the whole. -/
@[elab_as_elim]
theorem JsValue.byParts {motive : JsValue → Prop}
    (leaf : ∀ v : JsValue, v.isLeaf = true → motive v)
    (arr : ∀ items, (∀ v ∈ items, motive v) → motive (.arr items))
    (obj : ∀ fields, (∀ f : String × JsValue, f ∈ fields → motive f.2) → motive (.obj fields)) :
    ∀ v, motive v
  | .arr items => arr items (JsValue.itemsByParts leaf arr obj items)
  | .obj fields => obj fields (JsValue.fieldsByParts leaf arr obj fields)
  | .undefined => leaf _ rfl
  | .null => leaf _ rfl
  | .bool _ => leaf _ rfl
  | .num _ => leaf _ rfl
  | .infinity _ => leaf _ rfl
  | .str _ => leaf _ rfl

theorem JsValue.itemsByParts {motive : JsValue → Prop}
    (leaf : ∀ v : JsValue, v.isLeaf = true → motive v)
    (arr : ∀ items, (∀ v ∈ items, motive v) → motive (.arr items))
    (obj : ∀ fields, (∀ f : String × JsValue, f ∈ fields → motive f.2) → motive (.obj fields)) :
    ∀ items : List JsValue, ∀ v ∈ items, motive v
  | [], _, hv => absurd hv List.not_mem_nil
  | v :: vs, w, hw => (List.mem_cons.1 hw).elim
      (fun heq => heq ▸ JsValue.byParts leaf arr obj v)
      (JsValue.itemsByParts leaf arr obj vs w)

theorem JsValue.fieldsByParts {motive : JsValue → Prop}
    (leaf : ∀ v : JsValue, v.isLeaf = true → motive v)
    (arr : ∀ items, (∀ v ∈ items, motive v) → motive (.arr items))
    (obj : ∀ fields, (∀ f : String × JsValue, f ∈ fields → motive f.2) → motive (.obj fields)) :
    ∀ fields : List (String × JsValue), ∀ f ∈ fields, motive f.2
  | [], _, hf => absurd hf List.not_mem_nil
  | (_, v) :: fs, g, hg => (List.mem_cons.1 hg).elim
      (fun heq => heq ▸ JsValue.byParts leaf arr obj v)
      (JsValue.fieldsByParts leaf arr obj fs g)

end

mutual

/-- A value `JSON.parse` can return. -/
def isParsed : JsValue → Bool
  | .undefined => false
  | .null => true
  | .bool _ => true
  | .num _ => true
  | .infinity _ => true
  | .str _ => true
  | .arr items => itemsParsed items
  | .obj fields => decide (fields.map Prod.fst).Nodup && fieldsParsed fields

def itemsParsed : List JsValue → Bool
  | [] => true
  | v :: vs => isParsed v && itemsParsed vs

def fieldsParsed : List (String × JsValue) → Bool
  | [] => true
  | (_, v) :: fs => isParsed v && fieldsParsed fs

end

/-- The value of a `jsonb` column, as it is read. -/
structure Parsed where
  value : JsValue
  parsed : isParsed value = true

theorem itemsParsed_iff (items : List JsValue) :
    itemsParsed items = true ↔ ∀ v ∈ items, isParsed v = true := by
  induction items with
  | nil => simp [itemsParsed]
  | cons v vs ih => simp [itemsParsed, ih]

theorem fieldsParsed_iff (fields : List (String × JsValue)) :
    fieldsParsed fields = true ↔ ∀ f ∈ fields, isParsed f.2 = true := by
  induction fields with
  | nil => simp [fieldsParsed]
  | cons f fs ih => simp [fieldsParsed, ih]

theorem isParsed_of_isJson {v : JsValue} : isJson v = true → isParsed v = true := by
  induction v using JsValue.byParts with
  | leaf v hv =>
      intro h
      cases v with
      | undefined => cases h
      | arr _ | obj _ => cases hv
      | null | bool _ | num _ | infinity _ | str _ => rfl
  | arr items ih =>
      intro h
      rw [isParsed, itemsParsed_iff]
      exact fun v hv => ih v hv (isJson_arr h v hv)
  | obj fields ih =>
      intro h
      have hfields := isJson_obj h
      rw [isJson, Bool.and_eq_true] at h
      rw [isParsed, Bool.and_eq_true, fieldsParsed_iff]
      exact ⟨h.1, fun f hf => ih f hf (hfields f hf)⟩

/-- What JSON writes is read as it is. -/
def Json.read (v : Json) : Parsed := ⟨v.value, isParsed_of_isJson v.json⟩

mutual

/-- What stands in a value that is neither array nor object. -/
def leaves : JsValue → List JsValue
  | .arr items => itemsLeaves items
  | .obj fields => fieldsLeaves fields
  | .undefined => [.undefined]
  | .null => [.null]
  | .bool b => [.bool b]
  | .num n => [.num n]
  | .infinity negative => [.infinity negative]
  | .str s => [.str s]

def itemsLeaves : List JsValue → List JsValue
  | [] => []
  | v :: vs => leaves v ++ itemsLeaves vs

def fieldsLeaves : List (String × JsValue) → List JsValue
  | [] => []
  | (_, v) :: fs => leaves v ++ fieldsLeaves fs

end

theorem itemsLeaves_eq (items : List JsValue) : itemsLeaves items = items.flatMap leaves := by
  induction items with
  | nil => rfl
  | cons v vs ih => rw [itemsLeaves, ih, List.flatMap_cons]

theorem fieldsLeaves_eq (fields : List (String × JsValue)) :
    fieldsLeaves fields = fields.flatMap fun f => leaves f.2 := by
  induction fields with
  | nil => rfl
  | cons f fs ih => rw [fieldsLeaves, ih, List.flatMap_cons]

theorem leaves_of_isLeaf {v : JsValue} (h : v.isLeaf = true) : leaves v = [v] := by
  cases v <;> first | rfl | cases h

def JsValue.isInfinity : JsValue → Bool
  | .infinity _ => true
  | _ => false

/-- What prints as `null` of what can be read. -/
def JsValue.isBlank : JsValue → Bool
  | .null => true
  | .infinity _ => true
  | _ => false

def isFinite (v : JsValue) : Bool := (leaves v).all fun leaf => !leaf.isInfinity

def isUnblank (v : JsValue) : Bool := (leaves v).all fun leaf => !leaf.isBlank

/-- Values that are the same up to key order have the same leaves. -/
theorem leaves_perm {v : JsValue} : ∀ {w : JsValue}, SameJson v w → (leaves v).Perm (leaves w) := by
  induction v using JsValue.byParts with
  | leaf v hv =>
      intro w h
      cases h <;> first | exact .refl _ | cases hv
  | arr items ih =>
      intro w h
      cases h with
      | @arr _ items' hsame =>
          rw [leaves, leaves, itemsLeaves_eq, itemsLeaves_eq]
          induction hsame with
          | nil => exact .refl _
          | cons hfirst _ ihrest =>
              rw [List.forall_mem_cons] at ih
              rw [List.flatMap_cons, List.flatMap_cons]
              exact (ih.1 hfirst).append (ihrest ih.2)
  | obj fields ih =>
      intro w h
      cases h with
      | @obj _ listed fields' listed' hp hp' hsame =>
          rw [leaves, leaves, fieldsLeaves_eq, fieldsLeaves_eq]
          refine (hp.flatMap_right _).trans (.trans ?_ (hp'.symm.flatMap_right _))
          replace ih : ∀ f ∈ listed, ∀ {w : JsValue}, SameJson f.2 w →
              (leaves f.2).Perm (leaves w) := fun f hf => ih f (hp.mem_iff.2 hf)
          clear hp hp'
          induction listed generalizing listed' with
          | nil =>
              cases hsame
              exact .refl _
          | cons f listed ihrest =>
              cases hsame with
              | cons k hfirst hrest =>
                  rw [List.forall_mem_cons] at ih
                  rw [List.flatMap_cons, List.flatMap_cons]
                  exact (ih.1 hfirst).append (ihrest hrest ih.2)

theorem isFinite_same {v w : JsValue} (h : SameJson v w) : isFinite v = isFinite w :=
  List.Perm.all_eq (leaves_perm h)

theorem isUnblank_same {v w : JsValue} (h : SameJson v w) : isUnblank v = isUnblank w :=
  List.Perm.all_eq (leaves_perm h)

theorem isFinite_of_isUnblank {v : JsValue} (h : isUnblank v = true) : isFinite v = true := by
  rw [isUnblank, List.all_eq_true] at h
  rw [isFinite, List.all_eq_true]
  intro leaf hleaf
  have hunblank := h leaf hleaf
  cases leaf <;> first | rfl | exact hunblank

/-! ## Reading one blank for another -/

mutual

/-- The value with one thing in the place of everything blank. -/
def withBlanks (blank : JsValue) : JsValue → JsValue
  | .undefined => .undefined
  | .null => blank
  | .bool b => .bool b
  | .num n => .num n
  | .infinity _ => blank
  | .str s => .str s
  | .arr items => .arr (itemsWithBlanks blank items)
  | .obj fields => .obj (fieldsWithBlanks blank fields)

def itemsWithBlanks (blank : JsValue) : List JsValue → List JsValue
  | [] => []
  | v :: vs => withBlanks blank v :: itemsWithBlanks blank vs

def fieldsWithBlanks (blank : JsValue) : List (String × JsValue) → List (String × JsValue)
  | [] => []
  | (k, v) :: fs => (k, withBlanks blank v) :: fieldsWithBlanks blank fs

end

variable {blank : JsValue}

theorem withBlanks_arr (blank : JsValue) (items : List JsValue) :
    withBlanks blank (.arr items) = .arr (items.map (withBlanks blank)) := by
  have hitems : itemsWithBlanks blank items = items.map (withBlanks blank) := by
    induction items with
    | nil => rfl
    | cons v vs ih => rw [itemsWithBlanks, ih, List.map_cons]
  rw [withBlanks, hitems]

theorem withBlanks_obj (blank : JsValue) (fields : List (String × JsValue)) :
    withBlanks blank (.obj fields) =
      .obj (fields.map fun f => (f.1, withBlanks blank f.2)) := by
  have hfields : fieldsWithBlanks blank fields =
      fields.map fun f => (f.1, withBlanks blank f.2) := by
    induction fields with
    | nil => rfl
    | cons f fs ih => rw [fieldsWithBlanks, ih, List.map_cons]
  rw [withBlanks, hfields]

theorem withBlanks_of_isLeaf {v : JsValue} (h : v.isLeaf = true) :
    withBlanks blank v = if v.isBlank then blank else v := by
  cases v <;> first | rfl | cases h

/-- None of it shows in the canonical text. -/
theorem canonicalize_withBlanks (hblank : canonicalize blank = "null") (v : JsValue) :
    canonicalize (withBlanks blank v) = canonicalize v := by
  induction v using JsValue.byParts with
  | leaf v hv =>
      cases v with
      | null | infinity _ => exact hblank
      | arr _ | obj _ => cases hv
      | undefined | bool _ | num _ | str _ => rfl
  | arr items ih =>
      have hitems : canonicalizeItems (items.map (withBlanks blank)) = canonicalizeItems items := by
        rw [canonicalizeItems_eq, canonicalizeItems_eq, List.map_map]
        exact List.map_congr_left ih
      rw [withBlanks_arr, canonicalize, canonicalize, hitems]
  | obj fields ih =>
      have hfields : canonicalizeFields (fields.map fun f => (f.1, withBlanks blank f.2)) =
          canonicalizeFields fields := by
        rw [canonicalizeFields_eq, canonicalizeFields_eq, List.map_map]
        exact List.map_congr_left fun f hf => congrArg (Prod.mk f.1) (ih f hf)
      rw [withBlanks_obj, canonicalize, canonicalize, hfields]

theorem keys_withBlanks (blank : JsValue) (fields : List (String × JsValue)) :
    (fields.map fun f => (f.1, withBlanks blank f.2)).map Prod.fst = fields.map Prod.fst := by
  rw [List.map_map]
  rfl

theorem isParsed_withBlanks (hblank : isParsed blank = true) {v : JsValue} :
    isParsed v = true → isParsed (withBlanks blank v) = true := by
  induction v using JsValue.byParts with
  | leaf v hv =>
      intro h
      rw [withBlanks_of_isLeaf hv]
      split
      · exact hblank
      · exact h
  | arr items ih =>
      intro h
      rw [isParsed, itemsParsed_iff] at h
      rw [withBlanks_arr, isParsed, itemsParsed_iff, List.forall_mem_map]
      exact fun v hv => ih v hv (h v hv)
  | obj fields ih =>
      intro h
      rw [isParsed, Bool.and_eq_true, fieldsParsed_iff] at h
      rw [withBlanks_obj, isParsed, keys_withBlanks, Bool.and_eq_true, fieldsParsed_iff,
        List.forall_mem_map]
      exact ⟨h.1, fun f hf => ih f hf (h.2 f hf)⟩

/-- With `null` for the infinities it is a JSON value. -/
theorem isJson_withBlanks {v : JsValue} :
    isParsed v = true → isJson (withBlanks .null v) = true := by
  induction v using JsValue.byParts with
  | leaf v hv =>
      intro h
      cases v with
      | undefined => cases h
      | arr _ | obj _ => cases hv
      | null | bool _ | num _ | infinity _ | str _ => rfl
  | arr items ih =>
      intro h
      rw [isParsed, itemsParsed_iff] at h
      rw [withBlanks_arr, isJson, itemsJson_iff, List.forall_mem_map]
      exact fun v hv => ih v hv (h v hv)
  | obj fields ih =>
      intro h
      rw [isParsed, Bool.and_eq_true, fieldsParsed_iff] at h
      rw [withBlanks_obj, isJson, keys_withBlanks, Bool.and_eq_true, fieldsJson_iff,
        List.forall_mem_map]
      exact ⟨h.1, fun f hf => ih f hf (h.2 f hf)⟩

theorem leaves_withBlanks (hblank : blank.isLeaf = true) (v : JsValue) :
    leaves (withBlanks blank v) =
      (leaves v).map fun leaf => if leaf.isBlank then blank else leaf := by
  induction v using JsValue.byParts with
  | leaf v hv =>
      rw [leaves_of_isLeaf hv, withBlanks_of_isLeaf hv, List.map_singleton]
      split
      · exact leaves_of_isLeaf hblank
      · exact leaves_of_isLeaf hv
  | arr items ih =>
      rw [withBlanks_arr, leaves, leaves, itemsLeaves_eq, itemsLeaves_eq, List.flatMap_map,
        List.map_flatMap]
      exact List.flatMap_congr ih
  | obj fields ih =>
      rw [withBlanks_obj, leaves, leaves, fieldsLeaves_eq, fieldsLeaves_eq, List.flatMap_map,
        List.map_flatMap]
      exact List.flatMap_congr ih

theorem isFinite_withBlanks (v : JsValue) : isFinite (withBlanks .null v) = true := by
  rw [isFinite, leaves_withBlanks rfl, List.all_map, List.all_eq_true]
  intro leaf _
  cases leaf <;> rfl

/-- What passes a test that the blanks would fail had none. -/
theorem isUnblank_of_all_leaves {test : JsValue → Bool} {v : JsValue}
    (h : (leaves (withBlanks blank v)).all test = true) (hleaf : blank.isLeaf = true)
    (hblank : test blank = false) : isUnblank v = true := by
  rw [leaves_withBlanks hleaf, List.all_map, List.all_eq_true] at h
  rw [isUnblank, List.all_eq_true]
  intro leaf hmem
  have hkept := h leaf hmem
  cases hleafBlank : leaf.isBlank with
  | false => rfl
  | true =>
      rw [Function.comp_apply, if_pos hleafBlank, hblank] at hkept
      cases hkept

/-- A value with finite numbers is as it is printed. -/
theorem withBlanks_of_finite {v : JsValue} : isFinite v = true → withBlanks .null v = v := by
  induction v using JsValue.byParts with
  | leaf v hv =>
      intro h
      cases v with
      | infinity _ => cases h
      | arr _ | obj _ => cases hv
      | undefined | null | bool _ | num _ | str _ => rfl
  | arr items ih =>
      intro h
      rw [isFinite, leaves, itemsLeaves_eq, List.all_flatMap, List.all_eq_true] at h
      rw [withBlanks_arr, List.map_congr_left fun v hv => ih v hv (h v hv), List.map_id']
  | obj fields ih =>
      intro h
      rw [isFinite, leaves, fieldsLeaves_eq, List.all_flatMap, List.all_eq_true] at h
      have hfields : ∀ f ∈ fields, (f.1, withBlanks .null f.2) = f := fun f hf => by
        rw [ih f hf (h f hf)]
      rw [withBlanks_obj, List.map_congr_left hfields, List.map_id']

/-- Values that print alike are the same, but for infinities and `null`. -/
theorem same_of_canonicalize {v w : JsValue} (hv : isParsed v = true) (hw : isParsed w = true)
    (h : canonicalize v = canonicalize w) :
    SameJson (withBlanks .null v) (withBlanks .null w) := by
  refine sameJson_of_canonicalize (isJson_withBlanks hv) (isJson_withBlanks hw) ?_
  rw [canonicalize_withBlanks rfl, canonicalize_withBlanks rfl, h]

/-- With `null` for every infinity, as it is printed. -/
def Parsed.printed (v : Parsed) : Parsed :=
  ⟨withBlanks .null v.value, isParsed_withBlanks rfl v.parsed⟩

theorem canonicalize_printed (v : Parsed) :
    canonicalize v.printed.value = canonicalize v.value :=
  canonicalize_withBlanks rfl v.value

/-- What prints alike and is something else, where there is such a value: an
infinity for every `null`, or `null` for every infinity. -/
def Parsed.misread (v : Parsed) : Parsed :=
  if isFinite v.value then
    ⟨withBlanks (.infinity false) v.value, isParsed_withBlanks rfl v.parsed⟩
  else v.printed

theorem canonicalize_misread (v : Parsed) :
    canonicalize v.misread.value = canonicalize v.value := by
  unfold Parsed.misread
  split
  · exact canonicalize_withBlanks rfl v.value
  · exact canonicalize_printed v

theorem isUnblank_of_same_misread {v : Parsed} (h : SameJson v.value v.misread.value) :
    isUnblank v.value = true := by
  have hsame := isFinite_same h
  unfold Parsed.misread at hsame
  split at hsame
  · next hfinite =>
      rw [hfinite] at hsame
      exact isUnblank_of_all_leaves hsame.symm rfl rfl
  · next hinfinite =>
      exact absurd (hsame.trans (isFinite_withBlanks v.value)) hinfinite

end CleanStack.Kit
