import CleanStack.Drizzle.Lease
import CleanStack.Lib.Table

/-!
# The sweep lock

`sweep_lock` keeps one row for a label, with the lease somebody last took on it.
The row says whose lease it is, so that whoever gives one back names the lease
and not only the label.

The end of a lease is a date of the process that asks for it, in milliseconds,
and the statements compare it with the clock of the database. Here the two read
one clock.
-/

namespace CleanStack.Sweep

open CleanStack.Lib CleanStack.Drizzle

/-- `Date.now()`. -/
def dateNow (clock : Time) : Nat := clock / 1000

/-- The instant a number of milliseconds stands for. -/
def dateOf (ms : Nat) : Time := ms * 1000

theorem dateNow_lt {clock : Time} {ms : Nat} (h : dateNow clock < ms) : clock < dateOf ms := by
  unfold dateNow at h
  unfold dateOf
  change (_ : Nat) < _
  omega

theorem le_dateNow {clock : Time} {ms : Nat} (h : dateOf ms ≤ clock) : ms ≤ dateNow clock := by
  unfold dateOf at h
  unfold dateNow
  change (_ : Nat) ≤ _ at h
  omega

/-- What is asked for: an owner nobody else goes by, and the end. -/
structure SweepLease where
  owner : String
  lockedUntil : Time
  deriving DecidableEq, Repr

structure SweepLockRow where
  label : String
  owner : String
  lockedAt : Time
  lockedUntil : Time
  deriving DecidableEq

instance : Keyed SweepLockRow String := ⟨fun r => r.label⟩

abbrev SweepLockTable := Table SweepLockRow

def leaseSet (lease : SweepLease) (lockedAt : Time) (r : SweepLockRow) : SweepLockRow :=
  { r with owner := lease.owner, lockedAt, lockedUntil := lease.lockedUntil }

theorem leaseSet_label (lease : SweepLease) (lockedAt : Time) (r : SweepLockRow) :
    Keyed.key (leaseSet lease lockedAt r) = Keyed.key r :=
  rfl

/-- No row, or `locked_until < now()`. -/
def obtainable (t : SweepLockTable) (now : Time) (label : String) : Bool :=
  (t.find? label).all fun r => r.lockedUntil < now

/-- The upsert, and whether a row comes back. -/
def acquireSweepLease (t : SweepLockTable) (now : Time) (label : String) (lease : SweepLease)
    (lockedAt : Time) : SweepLockTable × Bool :=
  if obtainable t now label then
    (t.upsert ⟨label, lease.owner, lockedAt, lease.lockedUntil⟩ (leaseSet lease lockedAt)
      (leaseSet_label lease lockedAt), true)
  else (t, false)

def releaseSweepLease (t : SweepLockTable) (label owner : String) : SweepLockTable :=
  t.delete fun r => r.label = label && r.owner = owner

/-! ## The lease a row stands for -/

def SweepLockRow.lease (r : SweepLockRow) : SweepLease := ⟨r.owner, r.lockedUntil⟩

def leaseOf (t : SweepLockTable) (label : String) : Option SweepLease :=
  (t.find? label).map SweepLockRow.lease

variable {t : SweepLockTable} {now lockedAt : Time} {label other owner : String}
  {lease : SweepLease} {row : SweepLockRow}

theorem expired_of_obtainable (h : obtainable t now label = true) (hlease : leaseOf t label =
    some lease) : lease.lockedUntil < now := by
  obtain ⟨row, hrow, rfl⟩ := Option.map_eq_some_iff.1 hlease
  rw [obtainable, hrow] at h
  exact of_decide_eq_true h

theorem leaseOf_acquire (h : obtainable t now label = true) :
    leaseOf (acquireSweepLease t now label lease lockedAt).1 label = some lease := by
  rw [leaseOf, acquireSweepLease, if_pos h, Table.find?_upsert, if_pos]
  · cases t.find? label with
    | none => rfl
    | some row => rfl
  · rfl

theorem find?_acquire_other (hother : label ≠ other) :
    (acquireSweepLease t now label lease lockedAt).1.find? other = t.find? other := by
  unfold acquireSweepLease
  split
  · rw [Table.find?_upsert, if_neg]
    exact hother
  · rfl

theorem acquire_of_not_obtainable (h : ¬ obtainable t now label = true) :
    acquireSweepLease t now label lease lockedAt = (t, false) :=
  if_neg h

theorem find?_release_other (hother : label ≠ other) :
    (releaseSweepLease t label owner).find? other = t.find? other := by
  rw [releaseSweepLease, Table.find?_delete]
  cases hfind : t.find? other with
  | none => rfl
  | some r =>
      have hlabel : r.label ≠ label := fun h =>
        hother (h.symm.trans (Table.find?_eq_some.1 hfind).2)
      simp [hlabel]

/-- A lease of somebody else stays. -/
theorem find?_release (hrow : t.find? label = some row) (howner : row.owner ≠ owner) :
    (releaseSweepLease t label owner).find? label = some row := by
  rw [releaseSweepLease, Table.find?_delete, hrow]
  simp [howner]

theorem find?_release_own (hrow : t.find? label = some row) (howner : row.owner = owner) :
    (releaseSweepLease t label owner).find? label = none := by
  have hlabel : row.label = label := (Table.find?_eq_some.1 hrow).2
  rw [releaseSweepLease, Table.find?_delete, hrow]
  simp [howner, hlabel]

end CleanStack.Sweep
