import CleanStack.Kit.CanonicalJson
import CleanStack.Kit.Utf16

/-!
# What the canonical text says, and nothing else

`Kit/CanonicalJson.lean` reads a canonical text back. The other way round the text
does not show the order an object's keys came in: code units are a total order in
which no two strings tie, so keys that occur once have one sorted order.
-/

namespace CleanStack.Kit

open Lib

/-! ## The order of strings -/

theorem unitsLe_total (a b : List Nat) : unitsLe a b = true ∨ unitsLe b a = true := by
  induction a generalizing b with
  | nil => exact .inl rfl
  | cons x a ih =>
    cases b with
    | nil => exact .inr rfl
    | cons y b =>
      rcases Nat.lt_trichotomy x y with hlt | rfl | hlt
      · exact .inl (by simp [unitsLe, hlt])
      · simpa [unitsLe] using ih b
      · exact .inr (by simp [unitsLe, hlt])

theorem unitsLe_cons {x y : Nat} {a b : List Nat} :
    unitsLe (x :: a) (y :: b) = true ↔ x < y ∨ (x = y ∧ unitsLe a b = true) := by
  simp [unitsLe]

theorem unitsLe_trans {a b c : List Nat} (h : unitsLe a b = true) (h' : unitsLe b c = true) :
    unitsLe a c = true := by
  induction a generalizing b c with
  | nil => rfl
  | cons x a ih =>
    rcases b with _ | ⟨y, b⟩
    · cases h
    · rcases c with _ | ⟨z, c⟩
      · cases h'
      · rw [unitsLe_cons] at h h' ⊢
        rcases h with h | ⟨rfl, h⟩
        · exact .inl (h'.elim h.trans fun h' => h'.1 ▸ h)
        · exact h'.imp id fun h' => ⟨h'.1, ih h h'.2⟩

theorem unitsLe_antisymm {a b : List Nat} (h : unitsLe a b = true) (h' : unitsLe b a = true) :
    a = b := by
  induction a generalizing b with
  | nil =>
    cases b with
    | nil => rfl
    | cons y b => cases h'
  | cons x a ih =>
    cases b with
    | nil => cases h
    | cons y b =>
      rw [unitsLe_cons] at h h'
      rcases h with hlt | ⟨rfl, htail⟩
      · rcases h' with hlt' | ⟨heq, -⟩ <;> omega
      · rcases h' with hlt' | ⟨-, htail'⟩
        · omega
        · rw [ih htail htail']

theorem utf16Units_eq (s : String) : utf16Units s = (unitsOf s).map UInt16.toNat := by
  rw [utf16Units, unitsOf, List.map_flatMap]
  refine List.flatMap_congr fun c _ => ?_
  have hchar := not_surrogate c
  have hsmall : ∀ n, n < 0x10000 → (n.toUInt16).toNat = n := fun n hn => Nat.mod_eq_of_lt hn
  split_ifs with hc
  · rw [List.map_singleton, hsmall _ hc]
  · rw [List.map_cons, List.map_singleton, hsmall _ (by omega), hsmall _ (by omega)]

theorem stringLe_antisymm {s t : String} (h : stringLe s t = true) (h' : stringLe t s = true) :
    s = t := by
  have hunits := unitsLe_antisymm h h'
  rw [utf16Units_eq, utf16Units_eq] at hunits
  exact unitsOf_injective (List.map_injective_iff.2 (fun _ _ => UInt16.toNat_inj.1) hunits)

/-! ## One order of keys -/

/-- Fields with distinct keys print in one order. -/
theorem sortFields_perm {fields fields' : List (String × String)} (h : fields.Perm fields')
    (hkeys : (fields.map Prod.fst).Nodup) : sortFields fields = sortFields fields' := by
  let r : String × String → String × String → Prop := fun a b => stringLe a.1 b.1 = true
  have : Std.Total r := ⟨fun a b => unitsLe_total _ _⟩
  have : IsTrans (String × String) r := ⟨fun a b c => unitsLe_trans⟩
  have hperm := List.perm_insertionSort r fields
  have hperm' := List.perm_insertionSort r fields'
  have hanti : ∀ a b, a ∈ List.insertionSort r fields → b ∈ List.insertionSort r fields' →
      r a b → r b a → a = b := fun a b ha hb hab hba =>
    List.inj_on_of_nodup_map hkeys (hperm.mem_iff.1 ha) (h.mem_iff.2 (hperm'.mem_iff.1 hb))
      (stringLe_antisymm hab hba)
  exact List.Perm.eq_of_pairwise hanti (List.pairwise_insertionSort r fields)
    (List.pairwise_insertionSort r fields') (hperm.trans (h.trans hperm'.symm))

/-! ## Values -/

/-- `v` prints as everything that is the same up to key order does. -/
def PrintsAlike (v : JsValue) : Prop :=
  ∀ w, isJson w = true → SameJson v w → canonicalize v = canonicalize w

theorem canonicalizeItems_same {items items' : List JsValue}
    (h : List.Forall₂ SameJson items items') (hitems : ∀ v ∈ items, PrintsAlike v)
    (hjson : ∀ w ∈ items', isJson w = true) :
    canonicalizeItems items = canonicalizeItems items' := by
  induction h with
  | nil => rfl
  | cons hsame _ ih =>
    rw [List.forall_mem_cons] at hitems hjson
    rw [canonicalizeItems, canonicalizeItems, hitems.1 _ hjson.1 hsame, ih hitems.2 hjson.2]

theorem canonicalizeFields_same {fields fields' : List (String × JsValue)}
    (h : SameFields fields fields') (hfields : ∀ f ∈ fields, PrintsAlike f.2)
    (hjson : ∀ g ∈ fields', isJson g.2 = true) :
    canonicalizeFields fields = canonicalizeFields fields' := by
  induction fields generalizing fields' with
  | nil =>
    cases h
    rfl
  | cons f fields ih =>
    cases h with
    | cons k hsame hrest =>
      rw [List.forall_mem_cons] at hfields hjson
      rw [canonicalizeFields, canonicalizeFields, hfields.1 _ hjson.1 hsame,
        ih hrest hfields.2 hjson.2]

theorem canonicalizeFields_keys (fields : List (String × JsValue)) :
    (canonicalizeFields fields).map Prod.fst = fields.map Prod.fst := by
  rw [canonicalizeFields_eq, List.map_map]
  rfl

theorem canonicalizeFields_perm {fields fields' : List (String × JsValue)}
    (h : fields.Perm fields') : (canonicalizeFields fields).Perm (canonicalizeFields fields') := by
  rw [canonicalizeFields_eq, canonicalizeFields_eq]
  exact h.map _

theorem printsAlike_obj {fields : List (String × JsValue)} (hkeys : (fields.map Prod.fst).Nodup)
    (hfields : ∀ f ∈ fields, PrintsAlike f.2) : PrintsAlike (.obj fields) := by
  intro w hw h
  cases h with
  | obj hp hp' hsame =>
    have hlisted := canonicalizeFields_same hsame (fun f hf => hfields f (hp.mem_iff.2 hf))
      fun g hg => isJson_obj hw g (hp'.mem_iff.2 hg)
    have hperm := canonicalizeFields_perm hp
    rw [hlisted] at hperm
    have hsort := sortFields_perm (hperm.trans (canonicalizeFields_perm hp').symm)
      (by rwa [canonicalizeFields_keys])
    rw [canonicalize, canonicalize, hsort]

mutual

theorem printsAlike_value : ∀ v, isJson v = true → PrintsAlike v
  | .undefined, h => absurd h (by decide)
  | .infinity _, h => absurd h Bool.false_ne_true
  | .null, _ => fun w _ hsame => by cases hsame; rfl
  | .bool b, _ => fun w _ hsame => by cases hsame; rfl
  | .num n, _ => fun w _ hsame => by cases hsame; rfl
  | .str s, _ => fun w _ hsame => by cases hsame; rfl
  | .arr items, h => fun w hw hsame => by
      cases hsame with
      | arr hitems =>
        rw [canonicalize, canonicalize, canonicalizeItems_same hitems
          (printsAlike_values items (isJson_arr h)) (isJson_arr hw)]
  | .obj fields, h => by
      have hkeys : (fields.map Prod.fst).Nodup := by
        rw [isJson, Bool.and_eq_true] at h
        exact of_decide_eq_true h.1
      exact printsAlike_obj hkeys (printsAlike_fields fields (isJson_obj h))

theorem printsAlike_values : ∀ items : List JsValue, (∀ v ∈ items, isJson v = true) →
    ∀ v ∈ items, PrintsAlike v
  | [], _ => fun _ hv => absurd hv List.not_mem_nil
  | v :: vs, h => List.forall_mem_cons.2
      ⟨printsAlike_value v (h v List.mem_cons_self),
        printsAlike_values vs fun w hw => h w (List.mem_cons_of_mem _ hw)⟩

theorem printsAlike_fields : ∀ fields : List (String × JsValue),
    (∀ f ∈ fields, isJson f.2 = true) → ∀ f ∈ fields, PrintsAlike f.2
  | [], _ => fun _ hf => absurd hf List.not_mem_nil
  | (k, v) :: fs, h => List.forall_mem_cons.2
      ⟨printsAlike_value v (h (k, v) List.mem_cons_self),
        printsAlike_fields fs fun g hg => h g (List.mem_cons_of_mem _ hg)⟩

end

/-- Two JSON values print alike exactly when they are the same up to key order. -/
theorem canonicalize_eq_iff (v w : Json) :
    canonicalize v.value = canonicalize w.value ↔ SameJson v.value w.value :=
  ⟨sameJson_of_canonicalize v.json w.json, printsAlike_value v.value v.json w.value w.json⟩

end CleanStack.Kit
