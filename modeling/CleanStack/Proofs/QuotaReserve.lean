import CleanStack.Billing.Quota

/-!
# A quota is never passed

From the count to its end a transaction holds the lock of its organization and
key, so nobody else counts or commits in between: a count below the limit still
is one when the row that was reserved is committed. The bound is the limit, or
what was there before if that was more.
-/

namespace CleanStack.Billing

open CleanStack.Lib

/-- The phases in which a transaction with a limit holds its lock. -/
def QuotaPhase.holding : QuotaPhase → Bool
  | .locked | .reserved | .refused _ | .inserted => true
  | _ => false

/-- The count was below the limit, and the row is not there yet for others. -/
def QuotaPhase.granted : QuotaPhase → Bool
  | .reserved | .inserted => true
  | _ => false

/-- What holds of the reservations of one organization and key, all of them with
a limit of at most `cap`. -/
structure Reserving (hash : String → Int) (orgId : String) (key : QuotaKey) (cap bound : Int)
    (s : QuotaState) : Prop where
  capped : ∀ (i : Nat) tx, s.txs[i]? = some tx → tx.orgId = orgId → tx.key = key →
    ∃ limit, tx.limit = some limit ∧ limit ≤ cap
  own : ∀ (i : Nat) tx, s.txs[i]? = some tx → tx.phase = .inserted →
    tx.own = [⟨tx.key, tx.orgId⟩]
  holds : ∀ (i : Nat) tx, s.txs[i]? = some tx → tx.orgId = orgId → tx.key = key →
    tx.phase.holding = true → s.locks.Holds (hash (lockName orgId key)) i
  below : ∀ (i : Nat) tx, s.txs[i]? = some tx → tx.orgId = orgId → tx.key = key →
    tx.phase.granted = true → (countRows s.rows orgId key : Int) + 1 ≤ bound
  bound : (countRows s.rows orgId key : Int) ≤ bound

section Steps

variable {hash : String → Int} {orgId : String} {key : QuotaKey} {cap bound : Int}
  {s : QuotaState} {i : Nat} {tx tx' : QuotaTx} {locks : Locks Int Nat}

/-- A transaction gets on; what it must show for its new phase is about the
organization and key alone. -/
theorem Reserving.update (hs : Reserving hash orgId key cap bound s) (hi : s.txs[i]? = some tx)
    (hsame : tx'.orgId = tx.orgId ∧ tx'.key = tx.key ∧ tx'.limit = tx.limit)
    (hlocks : ∀ j, j ≠ i → s.locks.Holds (hash (lockName orgId key)) j →
      locks.Holds (hash (lockName orgId key)) j)
    (hown : tx'.phase = .inserted → tx'.own = [⟨tx'.key, tx'.orgId⟩])
    (hholds : tx.orgId = orgId → tx.key = key → tx'.phase.holding = true →
      locks.Holds (hash (lockName orgId key)) i)
    (hbelow : tx.orgId = orgId → tx.key = key → tx'.phase.granted = true →
      (countRows s.rows orgId key : Int) + 1 ≤ bound) :
    Reserving hash orgId key cap bound { s with txs := s.txs.set i tx', locks := locks } := by
  obtain ⟨hsameOrg, hsameKey, hsameLimit⟩ := hsame
  refine ⟨fun j other h horg hkey => ?_, fun j other h hphase => ?_,
    fun j other h horg hkey hphase => ?_, fun j other h horg hkey hphase => ?_, hs.bound⟩
  · rcases getElem?_set_cases h with ⟨rfl, rfl⟩ | ⟨-, hold⟩
    · rw [hsameLimit]
      exact hs.capped j tx hi (hsameOrg ▸ horg) (hsameKey ▸ hkey)
    · exact hs.capped j other hold horg hkey
  · rcases getElem?_set_cases h with ⟨rfl, rfl⟩ | ⟨-, hold⟩
    · exact hown hphase
    · exact hs.own j other hold hphase
  · rcases getElem?_set_cases h with ⟨rfl, rfl⟩ | ⟨hne, hold⟩
    · exact hholds (hsameOrg ▸ horg) (hsameKey ▸ hkey) hphase
    · exact hlocks j hne (hs.holds j other hold horg hkey hphase)
  · rcases getElem?_set_cases h with ⟨rfl, rfl⟩ | ⟨-, hold⟩
    · exact hbelow (hsameOrg ▸ horg) (hsameKey ▸ hkey) hphase
    · exact hs.below j other hold horg hkey hphase

theorem Reserving.setPhase (hs : Reserving hash orgId key cap bound s)
    (hi : s.txs[i]? = some tx) (phase : QuotaPhase) (hinserted : phase ≠ .inserted)
    (hholding : tx.orgId = orgId → tx.key = key → phase.holding = true →
      tx.phase.holding = true)
    (hgranted : tx.orgId = orgId → tx.key = key → phase.granted = true →
      (countRows s.rows orgId key : Int) + 1 ≤ bound) :
    Reserving hash orgId key cap bound (s.setPhase i tx phase) :=
  hs.update hi ⟨rfl, rfl, rfl⟩ (fun _ _ h => h) (fun h => absurd h hinserted)
    (fun horg hkey hphase => hs.holds i tx hi horg hkey (hholding horg hkey hphase)) hgranted

theorem Reserving.ended (hs : Reserving hash orgId key cap bound s) (hi : s.txs[i]? = some tx)
    {phase : QuotaPhase} (hphase : phase = .committed ∨ phase = .rolledBack) :
    Reserving hash orgId key cap bound (s.ended i tx phase) := by
  have hover : phase.holding = false ∧ phase.granted = false ∧ phase ≠ .inserted := by
    rcases hphase with rfl | rfl <;> exact ⟨rfl, rfl, by simp⟩
  refine hs.update hi ⟨rfl, rfl, rfl⟩ (fun j hj h => Locks.holds_releaseAll h hj)
    (fun h => absurd h hover.2.2) (fun _ _ h => ?_) (fun _ _ h => ?_)
  · rw [hover.1] at h
    cases h
  · rw [hover.2.1] at h
    cases h

theorem countRows_append (rows rows' : List QuotaRow) :
    countRows (rows ++ rows') orgId key = countRows rows orgId key + countRows rows' orgId key :=
  List.countP_append

theorem countRows_own (tx : QuotaTx) : countRows [⟨tx.key, tx.orgId⟩] orgId key =
    if tx.orgId = orgId ∧ tx.key = key then 1 else 0 := by
  by_cases horg : tx.orgId = orgId <;> by_cases hkey : tx.key = key <;>
    simp [countRows, horg, hkey]

/-- The commit of a row that was granted: nobody else has been granted one. -/
theorem Reserving.commit (hs : Reserving hash orgId key cap bound s) (hi : s.txs[i]? = some tx)
    (hphase : tx.phase = .inserted) :
    Reserving hash orgId key cap bound
      ({ s with rows := s.rows ++ tx.own }.ended i tx .committed) := by
  have hended := hs.ended hi (.inl rfl)
  have hcount : countRows (s.rows ++ tx.own) orgId key =
      countRows s.rows orgId key + if tx.orgId = orgId ∧ tx.key = key then 1 else 0 := by
    rw [countRows_append, hs.own i tx hi hphase, countRows_own]
  have hgranted : tx.phase.granted = true ∧ tx.phase.holding = true := by
    rw [hphase]
    exact ⟨rfl, rfl⟩
  by_cases hmine : tx.orgId = orgId ∧ tx.key = key
  · rw [if_pos hmine] at hcount
    have hroom := hs.below i tx hi hmine.1 hmine.2 hgranted.1
    have hholder := hs.holds i tx hi hmine.1 hmine.2 hgranted.2
    refine ⟨hended.capped, hended.own, hended.holds, fun j other h horg hkey hother => ?_, ?_⟩
    · -- The other one would hold the lock that transaction `i` held until now.
      have hholding : other.phase.holding = true := by
        cases hp : other.phase <;> simp [hp, QuotaPhase.granted] at hother <;> rfl
      have hlocked := hended.holds j other h horg hkey hholding
      have hij : j = i := (Locks.Holds.unique hholder (List.mem_of_mem_filter hlocked)).symm
      have hgone := List.mem_filter.1 hlocked
      simp [hij] at hgone
    · show (countRows (s.rows ++ tx.own) orgId key : Int) ≤ bound
      rw [hcount]
      omega
  · rw [if_neg hmine, Nat.add_zero] at hcount
    have hbelow : ∀ (j : Nat) other, (s.ended i tx .committed).txs[j]? = some other →
        other.orgId = orgId → other.key = key → other.phase.granted = true →
        (countRows (s.rows ++ tx.own) orgId key : Int) + 1 ≤ bound := by
      rw [hcount]
      exact hended.below
    refine ⟨hended.capped, hended.own, hended.holds, hbelow, ?_⟩
    show (countRows (s.rows ++ tx.own) orgId key : Int) ≤ bound
    rw [hcount]
    exact hs.bound

end Steps

/-- Whoever reserves for this organization and key has a limit of at most `cap`. -/
def Capped (orgId : String) (key : QuotaKey) (cap : Int) : QuotaEvent → Prop
  | .begin orgId' key' limit =>
      orgId' = orgId → key' = key → ∃ l, limit = some l ∧ l ≤ cap
  | _ => True

theorem lt_of_assertQuota {used : Nat} {limit : Int} (h : assertQuota used (some limit) = .ok ()) :
    (used : Int) < limit := by
  unfold assertQuota at h
  split at h
  · next hleft => simpa [hasQuotaRemaining] using hleft
  · cases h

theorem countRows_le_countScopedRows (s : QuotaState) (tx : QuotaTx) :
    countRows s.rows tx.orgId tx.key ≤ countScopedRows s tx := by
  unfold countScopedRows
  rw [countRows_append]
  exact Nat.le_add_right _ _

theorem reserving_step {hash : String → Int} {orgId : String} {key : QuotaKey}
    {cap bound : Int} (hcap : cap ≤ bound) {s t : QuotaState} {e : QuotaEvent}
    (hs : Reserving hash orgId key cap bound s) (he : Capped orgId key cap e)
    (h : quotaStep hash s e = some t) : Reserving hash orgId key cap bound t := by
  cases e with
  | begin orgId' key' limit =>
      cases h
      have hcases : ∀ {j : Nat} {other : QuotaTx},
          (s.txs ++ [⟨orgId', key', limit, .opened, []⟩])[j]? = some other →
          other = ⟨orgId', key', limit, .opened, []⟩ ∨ s.txs[j]? = some other := by
        intro j other hj
        rw [List.getElem?_append] at hj
        split at hj
        · exact .inr hj
        · exact .inl (List.mem_singleton.1 (List.mem_of_getElem? hj))
      refine ⟨fun j other hj horg hkey => ?_, fun j other hj hphase => ?_,
        fun j other hj horg hkey hphase => ?_, fun j other hj horg hkey hphase => ?_, hs.bound⟩
      · rcases hcases hj with rfl | hold
        · exact he horg hkey
        · exact hs.capped j other hold horg hkey
      · rcases hcases hj with rfl | hold
        · cases hphase
        · exact hs.own j other hold hphase
      · rcases hcases hj with rfl | hold
        · cases hphase
        · exact hs.holds j other hold horg hkey hphase
      · rcases hcases hj with rfl | hold
        · cases hphase
        · exact hs.below j other hold horg hkey hphase
  | reserve i =>
      obtain ⟨tx, hi, h⟩ := Option.bind_eq_some_iff.1 h
      obtain ⟨-, h⟩ := Option.ite_none_right_eq_some.1 h
      split at h
      · next hreserve =>
        cases h
        -- Without a limit there is no lock, and no reservation of this key.
        have hunlimited : tx.orgId = orgId → tx.key = key → False := by
          intro horg hkey
          obtain ⟨limit, hlimit, -⟩ := hs.capped i tx hi horg hkey
          simp [reserveQuota, hlimit] at hreserve
        exact hs.setPhase hi .reserved (by simp) (fun horg hkey => (hunlimited horg hkey).elim)
          fun horg hkey => (hunlimited horg hkey).elim
      · cases h
        exact hs.setPhase hi .locking (by simp) (fun _ _ hp => by cases hp)
          fun _ _ hp => by cases hp
      · cases h
  | locked i =>
      obtain ⟨tx, hi, h⟩ := Option.bind_eq_some_iff.1 h
      obtain ⟨-, h⟩ := Option.ite_none_right_eq_some.1 h
      obtain ⟨locks, hlocks, rfl⟩ := Option.map_eq_some_iff.1 h
      exact hs.update hi ⟨rfl, rfl, rfl⟩
        (fun j _ hj => Locks.holds_acquire_of_holds hlocks hj) (fun hp => by cases hp)
        (fun horg hkey _ => horg ▸ hkey ▸ Locks.holds_acquire hlocks)
        (fun _ _ hp => by cases hp)
  | counted i =>
      obtain ⟨tx, hi, h⟩ := Option.bind_eq_some_iff.1 h
      obtain ⟨hphase, h⟩ := Option.ite_none_right_eq_some.1 h
      have hholding : tx.phase.holding = true := by
        rw [hphase]
        rfl
      split at h
      · next hquota =>
        cases h
        refine hs.setPhase hi .reserved (by simp) (fun _ _ _ => hholding) fun horg hkey _ => ?_
        obtain ⟨limit, hlimit, hle⟩ := hs.capped i tx hi horg hkey
        rw [hlimit] at hquota
        have hused := lt_of_assertQuota hquota
        have hrows := countRows_le_countScopedRows s tx
        rw [horg, hkey] at hrows
        omega
      · cases h
        exact hs.setPhase hi _ (by simp) (fun _ _ _ => hholding) fun _ _ hp => by cases hp
  | insert i =>
      obtain ⟨tx, hi, h⟩ := Option.bind_eq_some_iff.1 h
      obtain ⟨hphase, h⟩ := Option.ite_none_right_eq_some.1 h
      cases h
      have hreserved : tx.phase.holding = true ∧ tx.phase.granted = true := by
        rw [hphase]
        exact ⟨rfl, rfl⟩
      exact hs.update hi ⟨rfl, rfl, rfl⟩ (fun _ _ hj => hj) (fun _ => rfl)
        (fun horg hkey _ => hs.holds i tx hi horg hkey hreserved.1)
        (fun horg hkey _ => hs.below i tx hi horg hkey hreserved.2)
  | commit i =>
      obtain ⟨tx, hi, h⟩ := Option.bind_eq_some_iff.1 h
      obtain ⟨hphase, h⟩ := Option.ite_none_right_eq_some.1 h
      cases h
      exact hs.commit hi hphase
  | rollback i =>
      obtain ⟨tx, hi, h⟩ := Option.bind_eq_some_iff.1 h
      split at h
      · cases h
      · cases h
        exact hs.ended hi (.inr rfl)

/-- However the transactions interleave, there are never more committed rows than
the limit, or than there were. -/
theorem reserved_rows_le {hash : String → Int} {orgId : String} {key : QuotaKey} {limit : Int}
    {rows : List QuotaRow} {es : List QuotaEvent} {t : QuotaState}
    (h : exec (quotaStep hash) ⟨rows, .none, []⟩ es = some t)
    (hlimit : ∀ limit', .begin orgId key limit' ∈ es → limit' = some limit) :
    (countRows t.rows orgId key : Int) ≤ max limit (countRows rows orgId key) := by
  have hfirst : Reserving hash orgId key limit (max limit (countRows rows orgId key))
      ⟨rows, .none, []⟩ := by
    refine ⟨fun i tx hi => ?_, fun i tx hi => ?_, fun i tx hi => ?_, fun i tx hi => ?_,
      le_max_right _ _⟩ <;> simp at hi
  have hcapped : ∀ e ∈ es, Capped orgId key limit e := by
    intro e he
    cases e with
    | begin orgId' key' limit' =>
        rintro rfl rfl
        exact ⟨limit, hlimit limit' he, Int.le_refl _⟩
    | _ => trivial
  exact (runs_inv_mem (fun _ _ _ hs he hstep => reserving_step (le_max_left _ _) hs he hstep)
    hfirst hcapped h).bound

/-- Two projects are created at once where one is left. -/
def lastProject : List QuotaEvent :=
  [.begin "o1" .projects (some 1), .begin "o1" .projects (some 1), .reserve 0, .reserve 1,
    .locked 1, .counted 1, .insert 1, .commit 1, .locked 0, .counted 0, .rollback 0]

def quotaAfter (es : List QuotaEvent) : QuotaState :=
  (exec (quotaStep fun name => name.length) ⟨[], .none, []⟩ es).getD ⟨[], .none, []⟩

theorem reserved_rows_le_last_project :
    (countRows (quotaAfter lastProject).rows "o1" .projects : Int) ≤
      max (1 : Int) (countRows [] "o1" .projects) := by
  have hrun : exec (quotaStep fun name => name.length) ⟨[], .none, []⟩ lastProject =
      some (quotaAfter lastProject) := by
    have hdone : (exec (quotaStep fun name => name.length) ⟨[], .none, []⟩ lastProject).isSome :=
      by decide
    obtain ⟨t, ht⟩ := Option.isSome_iff_exists.1 hdone
    simp only [quotaAfter, ht, Option.getD_some]
  refine reserved_rows_le hrun fun limit' hmem => ?_
  simpa [lastProject] using hmem

end CleanStack.Billing
