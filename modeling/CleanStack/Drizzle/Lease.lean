import CleanStack.Lib.Fencing
import Mathlib.Data.List.Sort

/-!
# Lease columns

Every queue table has an attempt counter and a next-attempt date, and every
queue claims, settles and releases through the same few SQL fragments. They
are modelled here over the two columns; a table says where it keeps them by
an instance of `LeaseColumns`.

Dates are microseconds, the precision Postgres stores. `now` is the database
clock of the statement.
-/

namespace CleanStack.Drizzle

open CleanStack.Lib

abbrev Time := Nat

def second : Time := 1000000

structure LeaseKey where
  id : String
  attempts : Int
  deriving DecidableEq, Repr

class LeaseColumns (ρ : Type) extends Keyed ρ String, Fencing.Leasable ρ where
  setLease : Int → Option Time → ρ → ρ
  key_setLease : ∀ a d r, Keyed.key (setLease a d r) = Keyed.key r
  counter_setLease : ∀ a d r, Fencing.Leasable.counter (setLease a d r) = a
  dueAt_setLease : ∀ a d r, Fencing.Leasable.dueAt (setLease a d r) = d

def DEAD_SHARE_OF_CLAIM : Nat := 4

/-- `Math.ceil(limit / DEAD_SHARE_OF_CLAIM)`. -/
def deadShareOf (limit : Nat) : Nat :=
  (limit + (DEAD_SHARE_OF_CLAIM - 1)) / DEAD_SHARE_OF_CLAIM

def isDue (now : Time) : Option Time → Bool
  | none => true
  | some d => d ≤ now

/-- A comparison with `NULL` selects nothing. -/
def isDeadDue (now : Time) : Option Time → Bool
  | none => false
  | some d => d ≤ now

def secondsFromNow (now : Time) (seconds : Nat) : Time := now + second * seconds

theorem secondsFromNow_eq (now : Time) (seconds : Nat) :
    secondsFromNow now seconds = now + second * seconds :=
  rfl

section Columns

variable {ρ : Type} [LeaseColumns ρ]

open Keyed Fencing.Leasable LeaseColumns

def leasedBy (lease : LeaseKey) (r : ρ) : Bool :=
  key r = lease.id && counter r = lease.attempts

def claimedSet (now : Time) (leaseSeconds : Nat) (r : ρ) : ρ :=
  setLease (counter r + 1) (some (secondsFromNow now leaseSeconds)) r

def releasedSet (now : Time) (r : ρ) : ρ :=
  setLease (counter r - 1) (some now) r

@[simp]
theorem key_claimedSet (now : Time) (leaseSeconds : Nat) (r : ρ) :
    key (claimedSet now leaseSeconds r) = key r :=
  key_setLease _ _ r

@[simp]
theorem key_releasedSet (now : Time) (r : ρ) : key (releasedSet now r) = key r :=
  key_setLease _ _ r

@[simp]
theorem counter_claimedSet (now : Time) (leaseSeconds : Nat) (r : ρ) :
    counter (claimedSet now leaseSeconds r) = counter r + 1 :=
  counter_setLease _ _ r

@[simp]
theorem dueAt_claimedSet (now : Time) (leaseSeconds : Nat) (r : ρ) :
    dueAt (claimedSet now leaseSeconds r) = some (now + second * leaseSeconds) :=
  dueAt_setLease _ _ r

@[simp]
theorem counter_releasedSet (now : Time) (r : ρ) :
    counter (releasedSet now r) = counter r - 1 :=
  counter_setLease _ _ r

/-- The lease of a claim: what a worker keeps of the row it was handed. -/
def leaseOf (c : Fencing.Claim String) : LeaseKey := ⟨c.row, c.token⟩

theorem leasedBy_leaseOf (c : Fencing.Claim String) (r : ρ) :
    leasedBy (leaseOf c) r = Fencing.leases c r := by
  simp only [leasedBy, Fencing.leases, leaseOf, eq_comm]

end Columns

theorem due_le_of_isDue {now : Time} {at? : Option Time} (h : isDue now at? = true)
    {d : Time} (hd : at? = some d) : d ≤ now := by
  subst hd
  simpa [isDue] using h

theorem due_le_of_isDeadDue {now : Time} {at? : Option Time}
    (h : isDeadDue now at? = true) {d : Time} (hd : at? = some d) : d ≤ now := by
  subst hd
  simpa [isDeadDue] using h

/-- `ORDER BY`, nulls aside. -/
def orderBy {ρ : Type} (le : ρ → ρ → Bool) (rows : List ρ) : List ρ :=
  rows.insertionSort fun a b => le a b = true

theorem mem_orderBy {ρ : Type} {le : ρ → ρ → Bool} {rows : List ρ} {r : ρ} :
    r ∈ orderBy le rows ↔ r ∈ rows :=
  (List.perm_insertionSort _ rows).mem_iff

theorem orderBy_perm {ρ : Type} (le : ρ → ρ → Bool) (rows : List ρ) :
    (orderBy le rows).Perm rows :=
  List.perm_insertionSort _ rows

theorem orderBy_pairwise {ρ : Type} {le : ρ → ρ → Bool}
    (htotal : ∀ a b, le a b = true ∨ le b a = true)
    (htrans : ∀ a b c, le a b = true → le b c = true → le a c = true) (rows : List ρ) :
    (orderBy le rows).Pairwise fun a b => le a b = true :=
  have : Std.Total fun a b => le a b = true := ⟨htotal⟩
  have : IsTrans ρ fun a b => le a b = true := ⟨htrans⟩
  List.pairwise_insertionSort _ rows

/-- `ORDER BY` on a date that may be `NULL`: nulls sort last. -/
def timeLe : Option Time → Option Time → Bool
  | _, none => true
  | none, some _ => false
  | some a, some b => a ≤ b

/-! ## What a claim picks

The three claim statements share a shape: the live rows that are due, up to
the limit, then a share of the dead rows that are due, then the limit again.
They differ in the order and in what makes a row live or dead. -/

section Pick

variable {ρ : Type} [LeaseColumns ρ]

open Keyed Fencing.Leasable

def pickDue (le : ρ → ρ → Bool) (liveDue deadDue : ρ → Bool) (limit : Nat)
    (free : List ρ) : List ρ :=
  let live := (orderBy le (free.filter liveDue)).take limit
  let dead := (orderBy (fun a b => timeLe (dueAt a) (dueAt b))
    (free.filter deadDue)).take (deadShareOf limit)
  (orderBy le (live ++ dead)).take limit

theorem mem_pickDue {le : ρ → ρ → Bool} {liveDue deadDue : ρ → Bool} {limit : Nat}
    {free : List ρ} {r : ρ} (h : r ∈ pickDue le liveDue deadDue limit free) :
    r ∈ free ∧ (liveDue r = true ∨ deadDue r = true) := by
  have hmem := mem_orderBy.1 (List.mem_of_mem_take h)
  rcases List.mem_append.1 hmem with hl | hd
  · have hl := List.mem_filter.1 (mem_orderBy.1 (List.mem_of_mem_take hl))
    exact ⟨hl.1, .inl hl.2⟩
  · have hd := List.mem_filter.1 (mem_orderBy.1 (List.mem_of_mem_take hd))
    exact ⟨hd.1, .inr hd.2⟩

/-- The rows another transaction has not locked. -/
def freeRows (t : Table ρ) (locked : String → Bool) : List ρ :=
  t.rows.filter fun r => !locked (key r)

theorem mem_freeRows {t : Table ρ} {locked : String → Bool} {r : ρ} :
    r ∈ freeRows t locked ↔ r ∈ t.rows ∧ locked (key r) = false := by
  simp [freeRows]

/-- `WHERE id = due.id`. -/
def joins (due : List ρ) (r : ρ) : Bool := due.any fun d => key d = key r

theorem mem_of_joins {t : Table ρ} {due : List ρ} (hdue : ∀ d ∈ due, d ∈ t.rows)
    {r : ρ} (hr : r ∈ t.rows) (h : joins due r = true) : r ∈ due := by
  obtain ⟨d, hd, hk⟩ := List.any_eq_true.1 h
  have : d = r := Table.eq_of_key (hdue d hd) hr (by simpa using hk)
  exact this ▸ hd

end Pick

end CleanStack.Drizzle
