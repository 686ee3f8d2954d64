import Mathlib.Order.Basic

/-!
# Leases that end by the clock

A lease may be taken when nobody has it, or when its last instant has passed,
whoever has it: nobody tells the one who had it. What is written down is one
name, and the holders are all who took the lease and have not given it back,
so that after a while there may be many.

`Named` is what holds them apart: whoever holds a lease that has not ended is
the one written down. Then no two such holders differ, and a lease that may be
taken has no such holder.
-/

namespace CleanStack.Lib.TimedLease

variable {α : Type*} (expires : α → Nat)

/-- Nobody has the lease, or its last instant has passed. -/
def Free (now : Nat) (lease : Option α) : Prop := ∀ a, lease = some a → expires a < now

/-- A holder whose lease has not ended is the one written down. -/
def Named (now : Nat) (lease : Option α) (held : α → Prop) : Prop :=
  ∀ a, held a → now ≤ expires a → lease = some a

variable {expires} {now next : Nat} {lease : Option α} {held held' : α → Prop} {a b : α}

theorem Named.unique (h : Named expires now lease held) (ha : held a) (hb : held b)
    (hea : now ≤ expires a) (heb : now ≤ expires b) : a = b := by
  have hnamed := h a ha hea
  rw [h b hb heb] at hnamed
  exact (Option.some.inj hnamed).symm

/-- Whoever finds the lease free finds every other holder past its end. -/
theorem Named.ended (h : Named expires now lease held) (hfree : Free expires now lease)
    (ha : held a) : expires a < now := by
  by_cases hea : now ≤ expires a
  · exact hfree a (h a ha hea)
  · omega

theorem Named.later (h : Named expires now lease held) (hnext : now ≤ next) :
    Named expires next lease held := by
  intro a ha hea
  exact h a ha (by omega)

theorem Named.fewer (h : Named expires now lease held) (hfewer : ∀ a, held' a → held a) :
    Named expires now lease held' :=
  fun a ha hea => h a (hfewer a ha) hea

theorem Named.take (h : Named expires now lease held) (hfree : Free expires now lease)
    (hheld : ∀ b, held' b → held b ∨ b = a) : Named expires now (some a) held' := by
  intro b hb heb
  rcases hheld b hb with hold | rfl
  · have hended := h.ended hfree hold
    omega
  · rfl

/-- The lease is given back: nobody who still holds one is the one written down,
unless past its end. -/
theorem Named.give (h : Named expires now lease held) (hfewer : ∀ b, held' b → held b)
    (hgone : ∀ b, held' b → lease = some b → expires b < now) :
    Named expires now none held' := by
  intro b hb heb
  have hended := hgone b hb (h b (hfewer b hb) heb)
  omega

end CleanStack.Lib.TimedLease
