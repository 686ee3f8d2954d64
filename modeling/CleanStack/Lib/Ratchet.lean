import Mathlib.Data.List.Pairwise
import Mathlib.Logic.Function.Basic
import Mathlib.Order.Lattice

/-!
# A value that transactions only raise

A cell takes a value when it is above the one it has. Transactions take values
for themselves first: what one has taken raises the cell in its own eyes only,
the others wait, and the cell moves when it commits.

`Ratchet` describes one such cell: its committed value, the values the committed
transactions took, and what each open transaction has taken so far. The values
taken go up, within a transaction and from one commit to the next, so that none
is ever taken twice.
-/

namespace CleanStack.Lib

variable {α ι : Type*}

/-- What a transaction sees of the cell, having taken some values. -/
def seen (last : Option α) (taken : List α) : Option α := taken.getLast?.or last

variable {last : Option α} {log : List α} {held : ι → List α} {i : ι} {a : α}

theorem seen_nil : seen last ([] : List α) = last :=
  rfl

variable [LinearOrder α]

/-- A value is taken when it is above the one that is seen. -/
def Raises (last : Option α) (a : α) : Prop := ∀ b, last = some b → b < a

structure Ratchet (last : Option α) (log : List α) (held : ι → List α) : Prop where
  rising : log.Pairwise (· < ·)
  reached : ∀ a ∈ log, ∃ b, last = some b ∧ a ≤ b
  heldRising : ∀ i, (held i).Pairwise (· < ·)
  ahead : ∀ i, ∀ a ∈ held i, Raises last a
  alone : ∀ i j, held i ≠ [] → held j ≠ [] → i = j

/-- The values of a rising list are at most its last. -/
theorem le_getLast?_of_rising {taken : List α} {b : α} (h : taken.Pairwise (· < ·))
    (hlast : taken.getLast? = some b) (ha : a ∈ taken) : a ≤ b := by
  obtain ⟨front, rfl⟩ := List.getLast?_eq_some_iff.1 hlast
  rcases List.mem_append.1 ha with hfront | hb
  · exact ((List.pairwise_append.1 h).2.2 a hfront b (List.mem_singleton_self b)).le
  · exact (List.mem_singleton.1 hb).le

/-- What is above the value seen is above everything taken, and above the cell. -/
theorem Raises.above {taken : List α} (htaken : taken.Pairwise (· < ·))
    (hahead : ∀ b ∈ taken, Raises last b) (h : Raises (seen last taken) a) :
    (∀ b ∈ taken, b < a) ∧ Raises last a := by
  cases hlast : taken.getLast? with
  | none =>
      rw [List.getLast?_eq_none_iff] at hlast
      subst hlast
      exact ⟨fun b hb => absurd hb List.not_mem_nil, h⟩
  | some c =>
      have hc : c < a := h c (by rw [seen, hlast, Option.some_or])
      refine ⟨fun b hb => (le_getLast?_of_rising htaken hlast hb).trans_lt hc, fun b hb => ?_⟩
      exact (hahead c (List.mem_of_getLast? hlast) b hb).trans hc

namespace Ratchet

section Update

variable [DecidableEq ι]

/-- A transaction takes a value while no other has taken one. -/
theorem take (h : Ratchet last log held) (hothers : ∀ j, j ≠ i → held j = [])
    (ha : Raises (seen last (held i)) a) :
    Ratchet last log (Function.update held i (held i ++ [a])) := by
  obtain ⟨habove, hraises⟩ := ha.above (h.heldRising i) (h.ahead i)
  refine ⟨h.rising, h.reached, fun j => ?_, fun j => ?_, fun j k hj hk => ?_⟩
  · by_cases hji : j = i
    · subst hji
      rw [Function.update_self, List.pairwise_append]
      refine ⟨h.heldRising j, List.pairwise_singleton _ a, fun b hb c hc => ?_⟩
      rw [List.mem_singleton.1 hc]
      exact habove b hb
    · rw [Function.update_of_ne hji]
      exact h.heldRising j
  · by_cases hji : j = i
    · subst hji
      rw [Function.update_self]
      intro b hb
      rcases List.mem_append.1 hb with hold | hnew
      · exact h.ahead j b hold
      · rw [List.mem_singleton.1 hnew]
        exact hraises
    · rw [Function.update_of_ne hji]
      exact h.ahead j
  · have hmine : ∀ l, Function.update held i (held i ++ [a]) l ≠ [] → l = i := by
      intro l hl
      by_cases hli : l = i
      · exact hli
      · rw [Function.update_of_ne hli] at hl
        exact absurd (hothers l hli) hl
    exact (hmine j hj).trans (hmine k hk).symm

/-- What a transaction took is undone. -/
theorem drop (h : Ratchet last log held) : Ratchet last log (Function.update held i []) := by
  have hsub : ∀ j, Function.update held i [] j = [] ∨ Function.update held i [] j = held j := by
    intro j
    by_cases hji : j = i
    · subst hji
      exact .inl (Function.update_self ..)
    · exact .inr (Function.update_of_ne hji ..)
  refine ⟨h.rising, h.reached, fun j => ?_, fun j => ?_, fun j k hj hk => ?_⟩
  · rcases hsub j with hnil | hsame
    · rw [hnil]
      exact List.Pairwise.nil
    · rw [hsame]
      exact h.heldRising j
  · rcases hsub j with hnil | hsame
    · rw [hnil]
      exact fun b hb => absurd hb List.not_mem_nil
    · rw [hsame]
      exact h.ahead j
  · have hheld : ∀ l, Function.update held i [] l ≠ [] → held l ≠ [] := by
      intro l hl
      rcases hsub l with hnil | hsame
      · exact absurd hnil hl
      · rwa [hsame] at hl
    exact h.alone j k (hheld j hj) (hheld k hk)

/-- A commit moves the cell to the last value taken, which is above all before. -/
theorem commit (h : Ratchet last log held) :
    Ratchet (seen last (held i)) (log ++ held i) (Function.update held i []) := by
  by_cases hnil : held i = []
  · rw [hnil, List.append_nil, seen_nil]
    exact h.drop
  · obtain ⟨b, hb⟩ := Option.ne_none_iff_exists'.1 (mt List.getLast?_eq_none_iff.1 hnil)
    have hseen : seen last (held i) = some b := by rw [seen, hb, Option.some_or]
    have hraised : ∀ c, last = some c → c < b := h.ahead i b (List.mem_of_getLast? hb)
    refine ⟨?_, fun c hc => ⟨b, hseen, ?_⟩, h.drop.heldRising, fun j => ?_, h.drop.alone⟩
    · refine List.pairwise_append.2 ⟨h.rising, h.heldRising i, fun c hc d hd => ?_⟩
      obtain ⟨e, he, hle⟩ := h.reached c hc
      exact hle.trans_lt (h.ahead i d hd e he)
    · rcases List.mem_append.1 hc with hold | hnew
      · obtain ⟨e, he, hle⟩ := h.reached c hold
        exact hle.trans (hraised e he).le
      · exact le_getLast?_of_rising (h.heldRising i) hb hnew
    · by_cases hji : j = i
      · subst hji
        rw [Function.update_self]
        exact fun c hc => absurd hc List.not_mem_nil
      · rw [Function.update_of_ne hji]
        intro c hc
        exact absurd (h.alone j i (List.ne_nil_of_mem hc) hnil) hji

end Update

/-- A value taken outside any transaction, while none has taken one. -/
theorem raise (h : Ratchet last log held) (hothers : ∀ j, held j = []) (ha : Raises last a) :
    Ratchet (some a) (log ++ [a]) held := by
  refine ⟨?_, fun c hc => ⟨a, rfl, ?_⟩, h.heldRising, fun j => ?_, h.alone⟩
  · refine List.pairwise_append.2 ⟨h.rising, List.pairwise_singleton _ a, fun c hc d hd => ?_⟩
    obtain ⟨e, he, hle⟩ := h.reached c hc
    rw [List.mem_singleton.1 hd]
    exact hle.trans_lt (ha e he)
  · rcases List.mem_append.1 hc with hold | hnew
    · obtain ⟨e, he, hle⟩ := h.reached c hold
      exact hle.trans (ha e he).le
    · exact (List.mem_singleton.1 hnew).le
  · rw [hothers j]
    exact fun c hc => absurd hc List.not_mem_nil

/-- A cell that nobody has taken a value of yet. -/
theorem idle (hheld : ∀ j, held j = []) : Ratchet last ([] : List α) held := by
  refine ⟨List.Pairwise.nil, fun a ha => absurd ha List.not_mem_nil, fun j => ?_, fun j => ?_,
    fun j _ hj => absurd (hheld j) hj⟩
  · rw [hheld j]
    exact List.Pairwise.nil
  · rw [hheld j]
    exact fun a ha => absurd ha List.not_mem_nil

end Ratchet

end CleanStack.Lib
