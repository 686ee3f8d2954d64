import Mathlib.Data.List.Nodup
import Mathlib.Data.List.Perm.Basic

/-!
# Tables with a primary key

The part of SQL the modelled statements use: a table is a list of rows whose
keys are pairwise distinct, and that fact travels with the rows. `update` is
`UPDATE … SET … WHERE …`, `returning` is what the same statement returns, and
`insert` refuses a key that is taken.

An update may not touch the key. That is a hypothesis of `update`, discharged
where a statement is written down, and it is what makes every lemma below
about one row at a time: the row of a key after the update is the image of
the row of that key before it.
-/

namespace CleanStack.Lib

/-- Rows of type `ρ` are identified by a key. -/
class Keyed (ρ : Type*) (κ : outParam Type*) where
  key : ρ → κ

open Keyed

structure Table (ρ : Type*) {κ : Type*} [Keyed ρ κ] where
  rows : List ρ
  nodup : (rows.map key).Nodup

namespace Table

variable {ρ κ : Type*} [Keyed ρ κ]

@[ext]
theorem ext {t u : Table ρ} (h : t.rows = u.rows) : t = u := by
  cases t
  cases u
  cases h
  rfl

def empty : Table ρ := ⟨[], List.nodup_nil⟩

theorem key_image {p : ρ → Bool} {f : ρ → ρ} (hf : ∀ r, key (f r) = key r)
    (r : ρ) : key (if p r then f r else r) = key r := by
  split
  · exact hf r
  · rfl

/-- `UPDATE … SET f WHERE p`. -/
def update (t : Table ρ) (p : ρ → Bool) (f : ρ → ρ)
    (hf : ∀ r, key (f r) = key r) : Table ρ where
  rows := t.rows.map fun r => if p r then f r else r
  nodup := by
    have hmap : (t.rows.map fun r => if p r then f r else r).map key =
        t.rows.map key := by
      rw [List.map_map]
      exact List.map_congr_left fun r _ => key_image hf r
    rw [hmap]
    exact t.nodup

/-- The rows the same statement returns. -/
def returning (t : Table ρ) (p : ρ → Bool) (f : ρ → ρ) : List ρ :=
  (t.rows.filter p).map f

/-- `INSERT`, refused when the key is taken. -/
def insert [DecidableEq κ] (t : Table ρ) (r : ρ) : Option (Table ρ) :=
  if h : key r ∈ t.rows.map key then none
  else some ⟨r :: t.rows, by
    rw [List.map_cons, List.nodup_cons]
    exact ⟨h, t.nodup⟩⟩

/-- `DELETE … WHERE p`. -/
def delete (t : Table ρ) (p : ρ → Bool) : Table ρ where
  rows := t.rows.filter fun r => !p r
  nodup := t.nodup.sublist (List.filter_sublist.map key)

def find? [DecidableEq κ] (t : Table ρ) (k : κ) : Option ρ :=
  t.rows.find? fun r => key r = k

theorem eq_of_key {t : Table ρ} {r r' : ρ} (h : r ∈ t.rows) (h' : r' ∈ t.rows)
    (hk : key r = key r') : r = r' :=
  List.inj_on_of_nodup_map t.nodup h h' hk

theorem mem_update {t : Table ρ} {p : ρ → Bool} {f : ρ → ρ}
    (hf : ∀ r, key (f r) = key r) {r' : ρ} :
    r' ∈ (t.update p f hf).rows ↔
      ∃ r ∈ t.rows, r' = if p r then f r else r := by
  simp only [update, List.mem_map]
  exact ⟨fun ⟨r, hr, h⟩ => ⟨r, hr, h.symm⟩, fun ⟨r, hr, h⟩ => ⟨r, hr, h.symm⟩⟩

theorem mem_update_of_mem {t : Table ρ} {r : ρ} (h : r ∈ t.rows) (p : ρ → Bool)
    {f : ρ → ρ} (hf : ∀ r, key (f r) = key r) :
    (if p r then f r else r) ∈ (t.update p f hf).rows :=
  (mem_update hf).2 ⟨r, h, rfl⟩

theorem mem_returning {t : Table ρ} {p : ρ → Bool} {f : ρ → ρ} {r' : ρ} :
    r' ∈ t.returning p f ↔ ∃ r ∈ t.rows, p r = true ∧ r' = f r := by
  simp only [returning, List.mem_map, List.mem_filter]
  exact ⟨fun ⟨r, ⟨hr, hp⟩, h⟩ => ⟨r, hr, hp, h.symm⟩,
    fun ⟨r, hr, hp, h⟩ => ⟨r, ⟨hr, hp⟩, h.symm⟩⟩

/-- A statement returns a row at most once. -/
theorem nodup_returning {t : Table ρ} {p : ρ → Bool} {f : ρ → ρ}
    (hf : ∀ r, key (f r) = key r) : ((t.returning p f).map key).Nodup := by
  have hmap : (t.returning p f).map key = (t.rows.filter p).map key := by
    rw [returning, List.map_map]
    exact List.map_congr_left fun r _ => hf r
  rw [hmap]
  exact t.nodup.sublist (List.filter_sublist.map key)

theorem mem_insert [DecidableEq κ] {t u : Table ρ} {r r' : ρ}
    (h : t.insert r = some u) : r' ∈ u.rows ↔ r' = r ∨ r' ∈ t.rows := by
  unfold insert at h
  split at h
  · cases h
  · cases h
    exact List.mem_cons

theorem rows_insert [DecidableEq κ] {t u : Table ρ} {r : ρ} (h : t.insert r = some u) :
    u.rows = r :: t.rows := by
  unfold insert at h
  split at h
  · cases h
  · cases h
    rfl

/-- What an update writes does not pass the test, so what passes it is left. -/
theorem filter_update_out {t : Table ρ} {p q : ρ → Bool} {f : ρ → ρ}
    (hf : ∀ r, key (f r) = key r) (hout : ∀ r, p r = true → q (f r) = false) :
    (t.update p f hf).rows.filter q = t.rows.filter fun r => q r && !p r := by
  show (t.rows.map fun r => if p r then f r else r).filter q = _
  induction t.rows with
  | nil => rfl
  | cons r rest ih =>
      rw [List.map_cons]
      cases hp : p r with
      | true =>
          rw [if_pos rfl, List.filter_cons_of_neg (by simp [hout r hp]),
            List.filter_cons_of_neg (by simp [hp]), ih]
      | false =>
          rw [if_neg Bool.false_ne_true]
          cases hq : q r with
          | true =>
              rw [List.filter_cons_of_pos hq, List.filter_cons_of_pos (by simp [hq, hp]), ih]
          | false =>
              rw [List.filter_cons_of_neg (by simp [hq]),
                List.filter_cons_of_neg (by simp [hq]), ih]

/-- A key that is not taken is not refused. -/
theorem exists_insert [DecidableEq κ] {t : Table ρ} {r : ρ} (h : key r ∉ t.rows.map key) :
    ∃ u, t.insert r = some u ∧ u.rows = r :: t.rows :=
  ⟨_, dif_neg h, rfl⟩

theorem insert_fresh [DecidableEq κ] {t u : Table ρ} {r : ρ}
    (h : t.insert r = some u) : ∀ r' ∈ t.rows, key r' ≠ key r := by
  unfold insert at h
  split at h
  · cases h
  · next hk =>
      intro r' hr' he
      exact hk (List.mem_map.2 ⟨r', hr', he⟩)

theorem find?_eq_some [DecidableEq κ] {t : Table ρ} {k : κ} {r : ρ} :
    t.find? k = some r ↔ r ∈ t.rows ∧ key r = k := by
  constructor
  · intro h
    exact ⟨List.mem_of_find?_eq_some h, by simpa using List.find?_some h⟩
  · rintro ⟨hr, hk⟩
    cases h : t.find? k with
    | none =>
        have := List.find?_eq_none.1 h r hr
        exact absurd hk (by simpa using this)
    | some r₀ =>
        have hr₀ : r₀ ∈ t.rows := List.mem_of_find?_eq_some h
        have hk₀ : key r₀ = k := by simpa using List.find?_some h
        rw [eq_of_key hr₀ hr (hk₀.trans hk.symm)]

theorem find?_eq_none [DecidableEq κ] {t : Table ρ} {k : κ} :
    t.find? k = none ↔ ∀ r ∈ t.rows, key r ≠ k := by
  simp [find?, List.find?_eq_none]

theorem find?_update [DecidableEq κ] {t : Table ρ} {p : ρ → Bool} {f : ρ → ρ}
    {hf : ∀ r, key (f r) = key r} {k : κ} :
    (t.update p f hf).find? k =
      (t.find? k).map fun r => if p r then f r else r := by
  have hkey : ((fun r => decide (key r = k)) ∘ fun r => if p r then f r else r) =
      fun r => decide (key r = k) := by
    funext r
    simp only [Function.comp_apply, key_image hf r]
  simp only [find?, update, List.find?_map, hkey]

theorem find?_insert [DecidableEq κ] {t u : Table ρ} {r : ρ} (h : t.insert r = some u)
    (k : κ) : u.find? k = if key r = k then some r else t.find? k := by
  unfold insert at h
  split at h
  · cases h
  · cases h
    simp only [find?, List.find?_cons]
    split
    · next hk => rw [if_pos (of_decide_eq_true hk)]
    · next hk => rw [if_neg (of_decide_eq_false hk)]

/-- A row that is there stays when another is inserted. -/
theorem find?_insert_of_find? [DecidableEq κ] {t u : Table ρ} {r r₀ : ρ} {k : κ}
    (hins : t.insert r = some u) (h : t.find? k = some r₀) : u.find? k = some r₀ := by
  obtain ⟨hmem, hk⟩ := find?_eq_some.1 h
  rw [find?_insert hins, if_neg, h]
  exact fun hkey => insert_fresh hins r₀ hmem (hk.trans hkey.symm)

theorem mem_delete {t : Table ρ} {p : ρ → Bool} {r : ρ} :
    r ∈ (t.delete p).rows ↔ r ∈ t.rows ∧ p r = false := by
  simp [delete]

theorem find?_delete [DecidableEq κ] {t : Table ρ} {p : ρ → Bool} {k : κ} :
    (t.delete p).find? k = (t.find? k).filter fun r => !p r := by
  cases h : t.find? k with
  | none =>
      rw [Option.filter_none, find?_eq_none]
      exact fun r hr => find?_eq_none.1 h r (mem_delete.1 hr).1
  | some r =>
      obtain ⟨hr, hk⟩ := find?_eq_some.1 h
      cases hp : p r with
      | false =>
          rw [Option.filter_some, hp]
          exact find?_eq_some.2 ⟨mem_delete.2 ⟨hr, hp⟩, hk⟩
      | true =>
          rw [Option.filter_some, hp]
          refine find?_eq_none.2 fun r' hr' hk' => ?_
          obtain ⟨hr', hp'⟩ := mem_delete.1 hr'
          rw [eq_of_key hr' hr (hk'.trans hk.symm), hp] at hp'
          cases hp'

theorem filter_key [DecidableEq κ] (t : Table ρ) (k : κ) :
    t.rows.filter (fun r => key r = k) = (t.find? k).toList := by
  obtain ⟨rows, hnodup⟩ := t
  simp only [find?]
  induction rows with
  | nil => rfl
  | cons r rows ih =>
      rw [List.map_cons, List.nodup_cons] at hnodup
      by_cases hk : key r = k
      · have hrest : rows.filter (fun r => key r = k) = [] := by
          rw [List.filter_eq_nil_iff]
          intro r' hr' hk'
          refine hnodup.1 (List.mem_map.2 ⟨r', hr', ?_⟩)
          rw [hk]
          exact of_decide_eq_true hk'
        simp [hk, hrest]
      · simpa [hk] using ih hnodup.2

/-- What a statement returns for one key. -/
theorem filter_key_returning [DecidableEq κ] {t : Table ρ} {p : ρ → Bool} {f : ρ → ρ}
    (hf : ∀ r, key (f r) = key r) (k : κ) :
    (t.returning p f).filter (fun r => key r = k) =
      (((t.find? k).filter p).map f).toList := by
  have hkey : ((fun r => decide (key r = k)) ∘ f) = fun r => decide (key r = k) := by
    funext r
    rw [Function.comp_apply, hf]
  rw [returning, List.filter_map, hkey, List.filter_filter]
  simp only [Bool.and_comm]
  rw [← List.filter_filter, filter_key]
  cases t.find? k with
  | none => rfl
  | some r =>
      by_cases hp : p r = true
      · simp [hp, Option.filter]
      · simp [hp, Option.filter]

/-- `INSERT … ON CONFLICT DO UPDATE SET f`. -/
def upsert [DecidableEq κ] (t : Table ρ) (r : ρ) (f : ρ → ρ)
    (hf : ∀ r, key (f r) = key r) : Table ρ :=
  match t.insert r with
  | some u => u
  | none => t.update (fun r' => key r' = key r) f hf

theorem insert_eq_none [DecidableEq κ] {t : Table ρ} {r : ρ} (h : t.insert r = none) :
    ∃ r₀, t.find? (key r) = some r₀ := by
  unfold insert at h
  split at h
  · next hk =>
      obtain ⟨r₀, hr₀, he⟩ := List.mem_map.1 hk
      exact ⟨r₀, find?_eq_some.2 ⟨hr₀, he⟩⟩
  · cases h

theorem find?_upsert [DecidableEq κ] {t : Table ρ} {r : ρ} {f : ρ → ρ}
    {hf : ∀ r, key (f r) = key r} (k : κ) :
    (t.upsert r f hf).find? k =
      if key r = k then some (((t.find? k).map f).getD r) else t.find? k := by
  unfold upsert
  cases hins : t.insert r with
  | some u =>
      rw [find?_insert hins]
      split
      · next hk =>
          have hnone : t.find? k = none := find?_eq_none.2 fun r' hr' =>
            hk ▸ insert_fresh hins r' hr'
          rw [hnone]
          rfl
      · rfl
  | none =>
      obtain ⟨r₀, hr₀⟩ := insert_eq_none hins
      rw [find?_update]
      by_cases hk : key r = k
      · rw [if_pos hk, ← hk, hr₀]
        have hkr : key r₀ = key r := (find?_eq_some.1 hr₀).2
        simp [hkr]
      · rw [if_neg hk]
        cases hfind : t.find? k with
        | none => rfl
        | some r' =>
            have hkr : key r' = k := (find?_eq_some.1 hfind).2
            have hne : ¬ key r' = key r := fun h => hk (h.symm.trans hkr)
            simp [hne]

theorem find?_upsert_of_key [DecidableEq κ] {t : Table ρ} {r : ρ} {f : ρ → ρ}
    {hf : ∀ r, key (f r) = key r} {k : κ} (hk : key r = k) :
    (t.upsert r f hf).find? k = some (((t.find? k).map f).getD r) := by
  rw [find?_upsert, if_pos hk]

theorem find?_upsert_of_ne [DecidableEq κ] {t : Table ρ} {r : ρ} {f : ρ → ρ}
    {hf : ∀ r, key (f r) = key r} {k : κ} (hk : key r ≠ k) :
    (t.upsert r f hf).find? k = t.find? k := by
  rw [find?_upsert, if_neg hk]

end Table

end CleanStack.Lib
