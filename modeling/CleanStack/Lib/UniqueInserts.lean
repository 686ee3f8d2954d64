import Mathlib.Data.List.Nodup
import Mathlib.Data.List.Perm.Basic

/-!
# Inserts that ignore conflicts, under a unique index

`INSERT … ON CONFLICT DO NOTHING`, run by any number of transactions on one
table. A row is ignored when its index key is there already, committed or
written by the same transaction. When another open transaction has written the
key, the statement waits for it, and goes on once it has committed, which makes
the row a conflict, or rolled back, which makes it none.

Two facts are all there is to it. No key is ever there twice, counting what is
not committed yet. And once a transaction has put a row through, it has the key:
it is committed, or the transaction will commit it.
-/

namespace CleanStack.Lib

/-- The committed rows, and the others with the transaction that wrote them. -/
structure Inserts (ρ : Type*) where
  rows : List ρ
  pending : List (Nat × ρ)

namespace Inserts

variable {ρ κ : Type*} (ukey : ρ → κ)

def empty : Inserts ρ := ⟨[], []⟩

def pendingOf (s : Inserts ρ) (t : Nat) : List ρ :=
  (s.pending.filter fun p => p.1 = t).map Prod.snd

/-- Whether the transaction finds the key taken by what is committed or its own. -/
def conflicts [DecidableEq κ] (s : Inserts ρ) (t : Nat) (k : κ) : Bool :=
  (s.rows ++ s.pendingOf t).any fun r => ukey r = k

/-- One row of an insert; nothing while the statement waits. -/
def insertOrIgnore [DecidableEq κ] (s : Inserts ρ) (t : Nat) (r : ρ) : Option (Inserts ρ) :=
  if conflicts ukey s t (ukey r) then some s
  else if s.pending.any fun p => ukey p.2 = ukey r then none
  else some { s with pending := (t, r) :: s.pending }

def forget (s : Inserts ρ) (t : Nat) : List (Nat × ρ) := s.pending.filter fun p => p.1 ≠ t

def commit (s : Inserts ρ) (t : Nat) : Inserts ρ := ⟨s.pendingOf t ++ s.rows, s.forget t⟩

def rollback (s : Inserts ρ) (t : Nat) : Inserts ρ := ⟨s.rows, s.forget t⟩

/-- `DELETE … WHERE p`, of committed rows. -/
def delete (s : Inserts ρ) (p : ρ → Bool) : Inserts ρ :=
  { s with rows := s.rows.filter fun r => !p r }

/-- A row that is inserted outright, in a transaction of its own. -/
def insertNew [DecidableEq κ] (s : Inserts ρ) (r : ρ) : Option (Inserts ρ) :=
  if (s.rows ++ s.pending.map Prod.snd).any fun x => ukey x = ukey r then none
  else some { s with rows := r :: s.rows }

/-! ## No key is there twice -/

def Unique (s : Inserts ρ) : Prop := ((s.rows ++ s.pending.map Prod.snd).map ukey).Nodup

/-- The key is committed, or the transaction has written it. -/
def Has (s : Inserts ρ) (t : Nat) (k : κ) : Prop :=
  ∃ r ∈ s.rows ++ s.pendingOf t, ukey r = k

variable {ukey} {s s' : Inserts ρ} {t u : Nat} {r : ρ} {k : κ}

theorem mem_pendingOf {x : ρ} : x ∈ s.pendingOf t ↔ (t, x) ∈ s.pending := by
  simp [pendingOf]

theorem conflicts_iff [DecidableEq κ] :
    conflicts ukey s t k = true ↔ Has ukey s t k := by
  rw [conflicts, List.any_eq_true]
  simp only [decide_eq_true_eq, Has]

theorem unique_empty : Unique ukey (empty : Inserts ρ) := List.nodup_nil

/-- All that one row of an insert can do: it is ignored, or it is written under a
key nobody has. -/
theorem insertOrIgnore_cases [DecidableEq κ] (h : insertOrIgnore ukey s t r = some s') :
    (s' = s ∧ Has ukey s t (ukey r)) ∨
      (s' = { s with pending := (t, r) :: s.pending } ∧
        ∀ x ∈ s.rows ++ s.pending.map Prod.snd, ukey x ≠ ukey r) := by
  unfold insertOrIgnore at h
  split at h
  · next hconflict =>
      cases h
      exact .inl ⟨rfl, conflicts_iff.1 hconflict⟩
  · next hfree =>
      split at h
      · cases h
      · next hnobody =>
          cases h
          refine .inr ⟨rfl, fun x hx hk => ?_⟩
          rcases List.mem_append.1 hx with hx | hx
          · exact hfree (conflicts_iff.2 ⟨x, List.mem_append_left _ hx, hk⟩)
          · obtain ⟨p, hp, rfl⟩ := List.mem_map.1 hx
            exact hnobody (List.any_eq_true.2 ⟨p, hp, decide_eq_true hk⟩)

theorem Unique.insertOrIgnore [DecidableEq κ] (h : Unique ukey s)
    (hs : insertOrIgnore ukey s t r = some s') : Unique ukey s' := by
  rcases insertOrIgnore_cases hs with ⟨rfl, -⟩ | ⟨rfl, hfresh⟩
  · exact h
  · have hmiddle : ((s.rows ++ r :: s.pending.map Prod.snd).map ukey).Perm
        (ukey r :: (s.rows ++ s.pending.map Prod.snd).map ukey) :=
      List.perm_middle.map ukey
    refine hmiddle.nodup_iff.2 (List.nodup_cons.2 ⟨fun hmem => ?_, h⟩)
    obtain ⟨x, hx, hk⟩ := List.mem_map.1 hmem
    exact hfresh x hx hk

theorem split_pending (s : Inserts ρ) (t : Nat) :
    (s.pendingOf t ++ (s.forget t).map Prod.snd).Perm (s.pending.map Prod.snd) := by
  have hnot : s.forget t = s.pending.filter fun p => !decide (p.1 = t) :=
    List.filter_congr fun p _ => by simp
  rw [hnot, pendingOf, ← List.map_append]
  exact (List.filter_append_perm _ _).map Prod.snd

theorem Unique.commit (h : Unique ukey s) : Unique ukey (s.commit t) := by
  have hperm : (s.pendingOf t ++ s.rows ++ (s.forget t).map Prod.snd).Perm
      (s.rows ++ s.pending.map Prod.snd) := by
    refine (List.perm_append_comm.append_right _).trans ?_
    rw [List.append_assoc]
    exact (split_pending s t).append_left s.rows
  exact (hperm.map ukey).nodup_iff.2 h

theorem Unique.rollback (h : Unique ukey s) : Unique ukey (s.rollback t) :=
  h.sublist (((List.filter_sublist.map Prod.snd).append_left s.rows).map ukey)

theorem Unique.delete (h : Unique ukey s) (p : ρ → Bool) : Unique ukey (s.delete p) :=
  h.sublist ((List.filter_sublist.append_right _).map ukey)

/-- What a transaction has written is not committed under the same key. -/
theorem Unique.rows_ne (h : Unique ukey s) {c : ρ} (hc : c ∈ s.rows)
    (hr : r ∈ s.pendingOf t) : ukey c ≠ ukey r := by
  have hr' : r ∈ s.pending.map Prod.snd := List.mem_map.2 ⟨(t, r), mem_pendingOf.1 hr, rfl⟩
  rw [Unique, List.map_append, List.nodup_append] at h
  exact h.2.2 _ (List.mem_map_of_mem hc) _ (List.mem_map_of_mem hr')

theorem Unique.pendingOf (h : Unique ukey s) (t : Nat) :
    ((s.pendingOf t).map ukey).Nodup := by
  have hperm := (split_pending s t).map ukey
  rw [List.map_append] at hperm
  rw [Unique, List.map_append, List.nodup_append] at h
  exact (List.nodup_append.1 (hperm.nodup_iff.2 h.2.1)).1

theorem insertNew_cases [DecidableEq κ] (h : insertNew ukey s r = some s') :
    s' = { s with rows := r :: s.rows } ∧
      ∀ x ∈ s.rows ++ s.pending.map Prod.snd, ukey x ≠ ukey r := by
  unfold insertNew at h
  split at h
  · cases h
  · next hfresh =>
      cases h
      exact ⟨rfl, fun x hx hk => hfresh (List.any_eq_true.2 ⟨x, hx, decide_eq_true hk⟩)⟩

theorem Unique.insertNew [DecidableEq κ] (h : Unique ukey s) (hs : insertNew ukey s r = some s') :
    Unique ukey s' := by
  obtain ⟨rfl, hfresh⟩ := insertNew_cases hs
  refine List.nodup_cons.2 ⟨fun hmem => ?_, h⟩
  obtain ⟨x, hx, hk⟩ := List.mem_map.1 hmem
  exact hfresh x hx hk

/-- Rows with different keys, and a test that only rows of one key pass. -/
theorem filter_key_le_one {l : List ρ} (hnodup : (l.map ukey).Nodup) {p : ρ → Bool}
    (hp : ∀ a ∈ l, ∀ b ∈ l, p a = true → p b = true → ukey a = ukey b) :
    (l.filter p).length ≤ 1 := by
  have hnodup' : ((l.filter p).map ukey).Nodup := hnodup.sublist (List.filter_sublist.map ukey)
  cases hfilter : l.filter p with
  | nil => exact Nat.zero_le _
  | cons a rest =>
      cases rest with
      | nil => exact Nat.le_refl _
      | cons b rest =>
          have ha : a ∈ l.filter p := by simp [hfilter]
          have hb : b ∈ l.filter p := by simp [hfilter]
          rw [List.mem_filter] at ha hb
          rw [hfilter, List.map_cons, List.map_cons, List.nodup_cons,
            hp a ha.1 b hb.1 ha.2 hb.2] at hnodup'
          exact absurd List.mem_cons_self hnodup'.1

/-! ## A row that was put through is there -/

theorem Has.inserted [DecidableEq κ] (hs : insertOrIgnore ukey s t r = some s') :
    Has ukey s' t (ukey r) := by
  rcases insertOrIgnore_cases hs with ⟨rfl, hhas⟩ | ⟨rfl, -⟩
  · exact hhas
  · exact ⟨r, List.mem_append_right _ (mem_pendingOf.2 List.mem_cons_self), rfl⟩

theorem Has.mono (h : Has ukey s t k) (hrows : s.rows ⊆ s'.rows)
    (hpending : ∀ x, (t, x) ∈ s.pending → (t, x) ∈ s'.pending) : Has ukey s' t k := by
  obtain ⟨x, hx, hk⟩ := h
  refine ⟨x, ?_, hk⟩
  rcases List.mem_append.1 hx with hx | hx
  · exact List.mem_append_left _ (hrows hx)
  · exact List.mem_append_right _ (mem_pendingOf.2 (hpending x (mem_pendingOf.1 hx)))

theorem Has.insertOrIgnore [DecidableEq κ] (h : Has ukey s t k)
    (hs : insertOrIgnore ukey s u r = some s') : Has ukey s' t k := by
  rcases insertOrIgnore_cases hs with ⟨rfl, -⟩ | ⟨rfl, -⟩
  · exact h
  · exact h.mono (List.Subset.refl _) fun x hx => List.mem_cons_of_mem _ hx

theorem mem_forget {p : Nat × ρ} : p ∈ s.forget t ↔ p ∈ s.pending ∧ p.1 ≠ t := by
  simp [forget]

/-- What a transaction has is committed with it. -/
theorem Has.committed (h : Has ukey s t k) : ∃ r ∈ (s.commit t).rows, ukey r = k := by
  obtain ⟨x, hx, hk⟩ := h
  exact ⟨x, (List.perm_append_comm.subset hx : x ∈ s.pendingOf t ++ s.rows), hk⟩

end Inserts

end CleanStack.Lib
