import Mathlib.Data.List.Basic

/-!
# Locks with one holder

A table of locks that are taken one by one and given up all together, as a
database transaction does with the ones it holds until it ends. That a lock has
one holder is a field of the table. A holder may take a lock again.
-/

namespace CleanStack.Lib

structure Locks (κ τ : Type*) where
  held : List (κ × τ)
  exclusive : ∀ key a b, (key, a) ∈ held → (key, b) ∈ held → a = b

namespace Locks

variable {κ τ : Type*}

def none : Locks κ τ := ⟨[], fun _ _ _ h => absurd h List.not_mem_nil⟩

/-- Nobody but `holder` has the lock. -/
def Free (l : Locks κ τ) (key : κ) (holder : τ) : Prop :=
  ∀ h ∈ l.held, h.1 = key → h.2 = holder

instance [DecidableEq κ] [DecidableEq τ] (l : Locks κ τ) (key : κ) (holder : τ) :
    Decidable (l.Free key holder) :=
  inferInstanceAs (Decidable (∀ h ∈ l.held, h.1 = key → h.2 = holder))

theorem exclusive_cons {l : Locks κ τ} {key : κ} {holder : τ} (hfree : l.Free key holder) :
    ∀ key' a b, (key', a) ∈ (key, holder) :: l.held → (key', b) ∈ (key, holder) :: l.held →
      a = b := by
  intro key' a b ha hb
  rcases List.mem_cons.1 ha with hanew | haold
  · obtain ⟨rfl, rfl⟩ := Prod.mk.inj hanew
    rcases List.mem_cons.1 hb with hbnew | hbold
    · exact (Prod.mk.inj hbnew).2.symm
    · exact (hfree (key', b) hbold rfl).symm
  · rcases List.mem_cons.1 hb with hbnew | hbold
    · obtain ⟨rfl, rfl⟩ := Prod.mk.inj hbnew
      exact hfree (key', a) haold rfl
    · exact l.exclusive key' a b haold hbold

/-- The holder gets the lock, unless another one has it. -/
def acquire [DecidableEq κ] [DecidableEq τ] (l : Locks κ τ) (key : κ) (holder : τ) :
    Option (Locks κ τ) :=
  if hfree : l.Free key holder then
    some ⟨(key, holder) :: l.held, exclusive_cons hfree⟩
  else Option.none

def releaseAll [DecidableEq τ] (l : Locks κ τ) (holder : τ) : Locks κ τ where
  held := l.held.filter fun h => h.2 ≠ holder
  exclusive key a b ha hb :=
    l.exclusive key a b (List.mem_of_mem_filter ha) (List.mem_of_mem_filter hb)

def Holds (l : Locks κ τ) (key : κ) (holder : τ) : Prop := (key, holder) ∈ l.held

variable {l l' : Locks κ τ} {key key' : κ} {holder other : τ}

theorem Holds.unique (h : l.Holds key holder) (h' : l.Holds key other) : holder = other :=
  l.exclusive key holder other h h'

section Operations

variable [DecidableEq κ] [DecidableEq τ]

theorem holds_acquire (h : l.acquire key holder = some l') : l'.Holds key holder := by
  unfold acquire at h
  split at h
  · cases h
    exact List.mem_cons_self
  · cases h

theorem holds_acquire_of_holds (h : l.acquire key holder = some l')
    (hother : l.Holds key' other) : l'.Holds key' other := by
  unfold acquire at h
  split at h
  · cases h
    exact List.mem_cons_of_mem _ hother
  · cases h

omit [DecidableEq κ] in
theorem holds_releaseAll (h : l.Holds key other) (hne : other ≠ holder) :
    (l.releaseAll holder).Holds key other :=
  List.mem_filter.2 ⟨h, by simpa using hne⟩

end Operations

end Locks

end CleanStack.Lib
