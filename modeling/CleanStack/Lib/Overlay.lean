import CleanStack.Lib.Table
import Mathlib.Data.List.Count

/-!
# What an open transaction sees

Under READ COMMITTED a statement sees the rows committed when it starts and,
on top of them, the writes of its own transaction. `Writes` are those: the rows
the transaction has inserted, and the keys of the rows it has deleted. `view`
lays them over the committed rows, which other transactions go on changing
below, and a commit makes the view the committed rows.

The lemmas count the rows of one kind in a view. Deletions below or above only
take from it, and an insertion on either side adds one row at most.
-/

namespace CleanStack.Lib

open Keyed

structure Writes (ρ : Type*) {κ : Type*} [Keyed ρ κ] where
  inserted : List ρ
  deleted : List κ

namespace Writes

variable {ρ κ : Type*} [Keyed ρ κ] [DecidableEq κ]

def empty : Writes ρ := ⟨[], []⟩

def kept (w : Writes ρ) (r : ρ) : Bool := decide (key r ∉ w.deleted)

def view (w : Writes ρ) (rows : List ρ) : List ρ := rows.filter w.kept ++ w.inserted

def insert (w : Writes ρ) (r : ρ) : Writes ρ := { w with inserted := r :: w.inserted }

def delete (w : Writes ρ) (k : κ) : Writes ρ where
  inserted := w.inserted.filter fun r => key r ≠ k
  deleted := k :: w.deleted

variable {w : Writes ρ} {rows rows' : List ρ} {p : ρ → Bool}

theorem countP_view :
    (w.view rows).countP p = (rows.filter w.kept).countP p + w.inserted.countP p :=
  List.countP_append

theorem countP_insert (r : ρ) :
    ((w.insert r).view rows).countP p = (w.view rows).countP p + if p r then 1 else 0 := by
  rw [countP_view, countP_view, insert, List.countP_cons]
  have hkept : ({ w with inserted := r :: w.inserted } : Writes ρ).kept = w.kept := rfl
  rw [hkept]
  omega

theorem countP_delete_le (k : κ) :
    ((w.delete k).view rows).countP p ≤ (w.view rows).countP p := by
  rw [countP_view, countP_view]
  refine Nat.add_le_add ?_ ?_
  · refine List.Sublist.countP_le (List.monotone_filter_right rows fun r hr => ?_)
    have hnot : key r ∉ k :: w.deleted := of_decide_eq_true hr
    exact decide_eq_true fun hmem => hnot (List.mem_cons_of_mem k hmem)
  · exact List.Sublist.countP_le List.filter_sublist

/-- Where the rows of a kind became fewer below, the view has no more of them. -/
theorem countP_view_le (h : (rows'.filter p).Sublist (rows.filter p)) :
    (w.view rows').countP p ≤ (w.view rows).countP p := by
  have hbelow : (rows'.filter w.kept).countP p ≤ (rows.filter w.kept).countP p := by
    rw [List.countP_eq_length_filter, List.countP_eq_length_filter,
      List.filter_comm p w.kept rows', List.filter_comm p w.kept rows]
    exact (h.filter w.kept).length_le
  rw [countP_view, countP_view]
  omega

/-- A row inserted below is at most one row more. -/
theorem countP_view_cons_le (r : ρ) :
    (w.view (r :: rows)).countP p ≤ (w.view rows).countP p + if p r then 1 else 0 := by
  rw [countP_view, countP_view, List.filter_cons]
  split
  · rw [List.countP_cons]
    omega
  · omega

/-- A transaction that inserts no row of a kind leaves as many of them or fewer. -/
theorem filter_view_sublist (h : ∀ r ∈ w.inserted, p r = false) :
    ((w.view rows).filter p).Sublist (rows.filter p) := by
  have hnone : w.inserted.filter p = [] :=
    List.filter_eq_nil_iff.2 fun r hr => by simp [h r hr]
  rw [view, List.filter_append, hnone, List.append_nil]
  exact List.filter_sublist.filter p

end Writes

end CleanStack.Lib
