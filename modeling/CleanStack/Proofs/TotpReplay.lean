import CleanStack.Auth.Totp
import CleanStack.Lib.Ratchet
import Mathlib.Data.Int.Order.Basic

/-!
# A code is accepted once

For each user the counter is a ratchet: the upsert takes a counter above the one
its transaction sees, a transaction that took one has the row locked until it
ends, and a commit moves the row to the last counter taken. So the counters of
the acceptances that are committed go up, whatever the clock said in between and
whichever counter a code was matched with.
-/

namespace CleanStack.Auth

open CleanStack.Lib

/-! ## Matching -/

/-- The counter is at most one step away from the clock. -/
def InWindow (counter now : Int) : Prop :=
  currentCounter now - CLOCK_DRIFT_STEPS ≤ counter ∧
    counter ≤ currentCounter now + CLOCK_DRIFT_STEPS

section Matching

variable {hotp : Int → Option String} {code : String} {current now counter : Int}

/-- What the loop finds is what it had found before or one of its steps. -/
theorem matchLoop_mem : ∀ {steps : List Int} {found : Option Int},
    matchLoop hotp code current steps found = some (some counter) →
      found = some counter ∨
        ∃ step ∈ steps, counter = current + step ∧ hotp counter = some code
  | [], found, h => .inl (Option.some.inj h)
  | step :: steps, found, h => by
      obtain ⟨expected, hexpected, hrest⟩ := Option.bind_eq_some_iff.1 h
      rcases matchLoop_mem hrest with hfound | ⟨later, hlater, hcounter⟩
      · split at hfound
        · next hcode =>
            cases hfound
            exact .inr ⟨step, List.mem_cons_self, rfl, hcode ▸ hexpected⟩
        · exact .inl hfound
      · exact .inr ⟨later, List.mem_cons_of_mem step hlater, hcounter⟩

theorem driftSteps_bounds {step : Int} (h : step ∈ driftSteps) :
    -(CLOCK_DRIFT_STEPS : Int) ≤ step ∧ step ≤ CLOCK_DRIFT_STEPS := by
  obtain ⟨k, hk, rfl⟩ := List.mem_map.1 h
  rw [List.mem_range] at hk
  omega

theorem matchedCounter_spec (h : matchedCounter hotp code now = some counter) :
    InWindow counter now ∧ hotp counter = some code := by
  rcases matchLoop_mem (Option.join_eq_some_iff.1 h) with hnone | ⟨step, hstep, rfl, hcode⟩
  · cases hnone
  · obtain ⟨hlow, hhigh⟩ := driftSteps_bounds hstep
    unfold InWindow
    exact ⟨by omega, hcode⟩

theorem consumeRead_spec {Secret : Type} {codes : TotpCodes Secret} {rows : List TwoFactorRow}
    {userId : String} (h : consumeRead codes rows userId code now = .ok counter) :
    InWindow counter now := by
  unfold consumeRead at h
  split at h
  · cases h
  · split at h
    · cases h
    · split at h
      · cases h
      · next hmatch =>
          cases h
          obtain ⟨secret, -, hmatched⟩ := Option.bind_eq_some_iff.1 hmatch
          exact (matchedCounter_spec hmatched).1

end Matching

/-! ## The counter of a user -/

/-- What an open transaction has taken for the user. -/
def TotpState.takenAt (s : TotpState) (userId : String) (i : Nat) : List Int :=
  ((s.openAt i).map fun tx => countersOf userId tx.writes).getD []

structure Ratchets (s : TotpState) : Prop where
  cell : ∀ userId, Ratchet (lastOf s.counters userId) (countersOf userId s.accepted)
    (s.takenAt userId)
  locked : ∀ i tx, s.openAt i = some tx → ∀ w ∈ tx.writes, w.userId ∈ tx.locked
  matched : ∀ call ∈ s.calls, ∀ counter, call.phase = .matched counter →
    InWindow counter call.readAt
  written : ∀ i tx, s.openAt i = some tx → ∀ w ∈ tx.writes, InWindow w.counter w.readAt
  accepted : ∀ a ∈ s.accepted, InWindow a.counter a.readAt

theorem seen_cons {last : Option Int} {c : Int} {taken : List Int} :
    seen last (c :: taken) = seen (some c) taken := by
  unfold seen
  rw [List.getLast?_cons]
  cases taken.getLast? with
  | none => rfl
  | some b => rfl

theorem lastOf_applyWrites {userId : String} : ∀ {writes : List TotpAcceptance}
    {t : TotpCounterTable}, lastOf (applyWrites t writes) userId =
      seen (lastOf t userId) (countersOf userId writes)
  | [], t => rfl
  | w :: writes, t => by
      rw [applyWrites, List.foldl_cons, ← applyWrites, lastOf_applyWrites, lastOf_writeCounter,
        countersOf_cons]
      by_cases huser : w.userId = userId
      · rw [if_pos huser, if_pos huser, seen_cons]
      · rw [if_neg huser, if_neg huser]

theorem raises_of_raisesCounter {t : TotpCounterTable} {userId : String} {counter : Int}
    (h : raisesCounter t userId counter = true) : Raises (lastOf t userId) counter := by
  intro last hlast
  obtain ⟨row, hrow, rfl⟩ := Option.map_eq_some_iff.1 hlast
  rw [raisesCounter, hrow] at h
  exact of_decide_eq_true h

section Transactions

variable {s t : TotpState} {i j : Nat} {tx : TotpTransaction} {userId : String}
  {transaction : Option Nat}

theorem takenAt_of_open (h : s.openAt i = some tx) : s.takenAt userId i =
    countersOf userId tx.writes := by
  rw [TotpState.takenAt, h]
  rfl

theorem lt_length_of_open (h : s.openAt i = some tx) : i < s.transactions.length := by
  obtain ⟨o, ho⟩ : ∃ o, s.transactions[i]? = some o := by
    cases ho : s.transactions[i]? with
    | none =>
        rw [TotpState.openAt, ho] at h
        cases h
    | some o => exact ⟨o, rfl⟩
  exact (List.getElem?_eq_some_iff.1 ho).1

/-- Whoever may write has the row to itself. -/
theorem not_locked_of_not_waits (h : s.waits transaction userId = false)
    (hopen : s.openAt j = some tx) (hother : some j ≠ transaction) : userId ∉ tx.locked := by
  intro hmem
  have hwaits : s.waits transaction userId = true := by
    refine List.any_eq_true.2 ⟨j, List.mem_range.2 (lt_length_of_open hopen), ?_⟩
    rw [hopen, Bool.and_eq_true]
    exact ⟨decide_eq_true hother, List.contains_iff_mem.2 hmem⟩
  rw [h] at hwaits
  cases hwaits

theorem countersOf_eq_nil {writes : List TotpAcceptance} (h : ∀ w ∈ writes, w.userId ≠ userId) :
    countersOf userId writes = [] := by
  rw [countersOf, List.filter_eq_nil_iff.2, List.map_nil]
  exact fun w hw hsame => h w hw (of_decide_eq_true hsame)

/-- What another transaction has taken for the user whose row one may write. -/
theorem Ratchets.taken_nil (hs : Ratchets s) (h : s.waits transaction userId = false)
    (hother : some j ≠ transaction) : s.takenAt userId j = [] := by
  cases hopen : s.openAt j with
  | none =>
      rw [TotpState.takenAt, hopen]
      rfl
  | some tx =>
      rw [takenAt_of_open hopen]
      refine countersOf_eq_nil fun w hw hsame => ?_
      exact not_locked_of_not_waits h hopen hother (hsame ▸ hs.locked j tx hopen w hw)

theorem openAt_set {o : Option TotpTransaction} (hopen : s.openAt i = some tx)
    (ht : t.transactions = s.transactions.set i o) (j : Nat) :
    t.openAt j = if j = i then o else s.openAt j := by
  have hlt := lt_length_of_open hopen
  rw [TotpState.openAt, ht]
  by_cases hji : j = i
  · subst hji
    rw [if_pos rfl, List.getElem?_set_self hlt]
    rfl
  · rw [if_neg hji, List.getElem?_set_ne (Ne.symm hji)]
    rfl

theorem takenAt_set {o : Option TotpTransaction} (hopen : s.openAt i = some tx)
    (ht : t.transactions = s.transactions.set i o) :
    t.takenAt userId = Function.update (s.takenAt userId) i
      ((o.map fun tx => countersOf userId tx.writes).getD []) := by
  funext j
  rw [TotpState.takenAt, openAt_set hopen ht]
  by_cases hji : j = i
  · subst hji
    rw [if_pos rfl, Function.update_self]
  · rw [if_neg hji, Function.update_of_ne hji]
    rfl

/-- A call is answered, and nothing is written. -/
theorem Ratchets.answered (hs : Ratchets s) {k : Nat} {call : TotpCall} {accepts : Bool} :
    Ratchets (s.answer k call accepts) := by
  refine ⟨hs.cell, hs.locked, fun call' hcall' counter hphase => ?_, hs.written, hs.accepted⟩
  rcases List.mem_or_eq_of_mem_set hcall' with hold | rfl
  · exact hs.matched call' hold counter hphase
  · cases hphase

/-- An upsert outside any transaction is committed by itself. -/
theorem Ratchets.raised (hs : Ratchets s) {counter readAt : Int}
    (hwindow : InWindow counter readAt) (hwaits : s.waits none userId = false)
    (hraises : raisesCounter s.counters userId counter = true) :
    Ratchets { s with
      counters := writeCounter s.counters userId counter
      accepted := s.accepted ++ [⟨userId, counter, readAt⟩] } := by
  refine ⟨fun other => ?_, hs.locked, hs.matched, hs.written, fun a ha => ?_⟩
  · show Ratchet (lastOf (writeCounter s.counters userId counter) other)
      (countersOf other (s.accepted ++ [⟨userId, counter, readAt⟩])) (s.takenAt other)
    rw [lastOf_writeCounter, countersOf_append, countersOf_cons]
    by_cases huser : userId = other
    · subst huser
      rw [if_pos rfl, if_pos rfl]
      exact (hs.cell userId).raise (fun j => hs.taken_nil hwaits nofun)
        (raises_of_raisesCounter hraises)
    · rw [if_neg huser, if_neg huser]
      exact (List.append_nil _).symm ▸ hs.cell other
  · rcases List.mem_append.1 ha with hold | hnew
    · exact hs.accepted a hold
    · rw [List.mem_singleton.1 hnew]
      exact hwindow

theorem of_mem_writes {accepts : Bool} {w a : TotpAcceptance} {writes : List TotpAcceptance}
    (hw : w ∈ if accepts then writes ++ [a] else writes) : w ∈ writes ∨ w = a := by
  cases accepts with
  | true => simpa using hw
  | false => exact .inl hw

/-- An upsert inside a transaction, which has the row from then on. -/
theorem Ratchets.taken (hs : Ratchets s) {counter readAt : Int} {accepts : Bool}
    (hwindow : InWindow counter readAt) (hwaits : s.waits (some i) userId = false)
    (hopen : s.openAt i = some tx)
    (hraises : raisesCounter (applyWrites s.counters tx.writes) userId counter = accepts) :
    Ratchets { s with
      transactions := s.transactions.set i (some
        { writes := if accepts then tx.writes ++ [⟨userId, counter, readAt⟩] else tx.writes
          locked := userId :: tx.locked }) } := by
  have hview : Raises (seen (lastOf s.counters userId) (s.takenAt userId i)) counter ∨
      accepts = false := by
    cases accepts with
    | false => exact .inr rfl
    | true =>
        rw [takenAt_of_open hopen, ← lastOf_applyWrites]
        exact .inl (raises_of_raisesCounter hraises)
  refine ⟨fun other => ?_, fun j tx' htx' w hw => ?_, hs.matched, fun j tx' htx' w hw => ?_,
    hs.accepted⟩
  · rw [takenAt_set hopen rfl]
    show Ratchet _ _ (Function.update (s.takenAt other) i (countersOf other
      (if accepts then tx.writes ++ [⟨userId, counter, readAt⟩] else tx.writes)))
    have hkept : Ratchet (lastOf s.counters other) (countersOf other s.accepted)
        (Function.update (s.takenAt other) i (countersOf other tx.writes)) := by
      rw [← takenAt_of_open hopen, Function.update_eq_self]
      exact hs.cell other
    cases accepts with
    | false => exact hkept
    | true =>
        rw [if_pos rfl, countersOf_append, countersOf_cons]
        by_cases huser : userId = other
        · subst huser
          rw [if_pos rfl, ← takenAt_of_open hopen]
          refine (hs.cell userId).take (fun j hj => ?_) (hview.resolve_right nofun)
          exact hs.taken_nil hwaits fun h => hj (Option.some.inj h)
        · rw [if_neg huser]
          exact (List.append_nil _).symm ▸ hkept
  · rw [openAt_set hopen rfl] at htx'
    by_cases hji : j = i
    · rw [if_pos hji] at htx'
      cases htx'
      rcases of_mem_writes hw with hold | hnew
      · exact List.mem_cons_of_mem userId (hs.locked i tx hopen w hold)
      · rw [hnew]
        exact List.mem_cons_self
    · rw [if_neg hji] at htx'
      exact hs.locked j tx' htx' w hw
  · rw [openAt_set hopen rfl] at htx'
    by_cases hji : j = i
    · rw [if_pos hji] at htx'
      cases htx'
      rcases of_mem_writes hw with hold | hnew
      · exact hs.written i tx hopen w hold
      · rw [hnew]
        exact hwindow
    · rw [if_neg hji] at htx'
      exact hs.written j tx' htx' w hw

/-- The transaction is over, and what is left of it is in the table or nowhere. -/
theorem open_of_ended (hopen : s.openAt i = some tx)
    (ht : t.transactions = s.transactions.set i none) {tx' : TotpTransaction}
    (htx' : t.openAt j = some tx') : s.openAt j = some tx' := by
  rw [openAt_set hopen ht] at htx'
  split at htx'
  · cases htx'
  · exact htx'

theorem Ratchets.committed (hs : Ratchets s) (hopen : s.openAt i = some tx) :
    Ratchets { s with
      counters := applyWrites s.counters tx.writes
      transactions := s.transactions.set i none
      accepted := s.accepted ++ tx.writes } := by
  refine ⟨fun userId => ?_, fun j tx' htx' => hs.locked j tx' (open_of_ended hopen rfl htx'),
    hs.matched, fun j tx' htx' => hs.written j tx' (open_of_ended hopen rfl htx'),
    fun a ha => ?_⟩
  · rw [takenAt_set hopen rfl, lastOf_applyWrites, countersOf_append, ← takenAt_of_open hopen]
    exact (hs.cell userId).commit
  · rcases List.mem_append.1 ha with hold | hnew
    · exact hs.accepted a hold
    · exact hs.written i tx hopen a hnew

theorem Ratchets.rolledBack (hs : Ratchets s) (hopen : s.openAt i = some tx) :
    Ratchets { s with transactions := s.transactions.set i none } := by
  refine ⟨fun userId => ?_, fun j tx' htx' => hs.locked j tx' (open_of_ended hopen rfl htx'),
    hs.matched, fun j tx' htx' => hs.written j tx' (open_of_ended hopen rfl htx'), hs.accepted⟩
  rw [takenAt_set hopen rfl]
  exact (hs.cell userId).drop

theorem openAt_begins (ht : t.transactions = s.transactions ++ [some ⟨[], []⟩]) (j : Nat) :
    t.openAt j = if j = s.transactions.length then some ⟨[], []⟩ else s.openAt j := by
  unfold TotpState.openAt
  rw [ht]
  by_cases hj : j = s.transactions.length
  · rw [if_pos hj, hj, List.getElem?_concat_length]
    rfl
  · rw [if_neg hj, List.getElem?_append]
    split
    · rfl
    · next hlt =>
        rw [List.getElem?_eq_none (Nat.not_lt.1 hlt), List.getElem?_eq_none]
        rw [List.length_singleton]
        omega

theorem Ratchets.begins (hs : Ratchets s) :
    Ratchets { s with transactions := s.transactions ++ [some ⟨[], []⟩] } := by
  have hold : ∀ j tx, ({ s with transactions := s.transactions ++ [some ⟨[], []⟩] } :
      TotpState).openAt j = some tx → ∀ w ∈ tx.writes, s.openAt j = some tx := by
    intro j tx htx w hw
    rw [openAt_begins rfl] at htx
    split at htx
    · cases htx
      cases hw
    · exact htx
  refine ⟨fun userId => ?_, fun j tx htx w hw => hs.locked j tx (hold j tx htx w hw) w hw,
    hs.matched, fun j tx htx w hw => hs.written j tx (hold j tx htx w hw) w hw, hs.accepted⟩
  have hsame : ({ s with transactions := s.transactions ++ [some ⟨[], []⟩] } :
      TotpState).takenAt userId = s.takenAt userId := by
    funext j
    unfold TotpState.takenAt
    rw [openAt_begins rfl]
    split
    · next hj =>
        have hnone : s.openAt j = none := by
          rw [TotpState.openAt, hj, List.getElem?_eq_none (Nat.le_refl _)]
          rfl
        rw [hnone]
        rfl
    · rfl
  rw [hsame]
  exact hs.cell userId

theorem Ratchets.read (hs : Ratchets s) {call : TotpCall}
    (hwindow : ∀ counter, call.phase = .matched counter → InWindow counter call.readAt) :
    Ratchets { s with calls := s.calls ++ [call] } := by
  refine ⟨hs.cell, hs.locked, fun call' hcall' counter hphase => ?_, hs.written, hs.accepted⟩
  rcases List.mem_append.1 hcall' with hold | hnew
  · exact hs.matched call' hold counter hphase
  · cases List.mem_singleton.1 hnew
    exact hwindow counter hphase

theorem Ratchets.step {Secret : Type} {codes : TotpCodes Secret} {e : TotpEvent}
    (hs : Ratchets s) (h : totpStep codes s e = some t) : Ratchets t := by
  cases e with
  | begins =>
      cases h
      exact hs.begins
  | read transaction rows userId code now =>
      cases h
      refine hs.read fun counter hphase => ?_
      dsimp only at hphase
      split at hphase
      · cases hphase
      · next hread =>
          cases hphase
          exact consumeRead_spec hread
  | upsert k =>
      obtain ⟨call, hcall, h⟩ := Option.bind_eq_some_iff.1 h
      split at h
      · cases h
      · next counter hphase =>
          have hwindow := hs.matched call (List.mem_of_getElem? hcall) counter hphase
          split at h
          · cases h
          · next hwaits =>
              rw [Bool.not_eq_true] at hwaits
              split at h
              · next htransaction =>
                  rw [htransaction] at hwaits
                  dsimp only at h
                  split at h
                  · next hraises =>
                      cases h
                      exact (hs.raised hwindow hwaits hraises).answered
                  · cases h
                    exact hs.answered
              · next i htransaction =>
                  rw [htransaction] at hwaits
                  obtain ⟨tx, hopen, rfl⟩ := Option.map_eq_some_iff.1 h
                  exact (hs.taken hwindow hwaits hopen rfl).answered
  | commit i =>
      obtain ⟨tx, hopen, rfl⟩ := Option.map_eq_some_iff.1 h
      exact hs.committed hopen
  | rollback i =>
      obtain ⟨tx, hopen, rfl⟩ := Option.map_eq_some_iff.1 h
      exact hs.rolledBack hopen

end Transactions

/-- Counters as they were left, and nobody at work. -/
structure Quiet (s : TotpState) : Prop where
  transactions : s.transactions = []
  calls : s.calls = []
  accepted : s.accepted = []

theorem Quiet.ratchets {s : TotpState} (h : Quiet s) : Ratchets s := by
  have hnone : ∀ i, s.openAt i = none := by
    intro i
    rw [TotpState.openAt, h.transactions]
    rfl
  refine ⟨fun userId => ?_, fun i tx htx => ?_, fun call hcall => ?_, fun i tx htx => ?_,
    fun a ha => ?_⟩
  · rw [h.accepted]
    refine Ratchet.idle fun j => ?_
    rw [TotpState.takenAt, hnone]
    rfl
  · rw [hnone] at htx
    cases htx
  · rw [h.calls] at hcall
    cases hcall
  · rw [hnone] at htx
    cases htx
  · rw [h.accepted] at ha
    cases ha

theorem totp_accepted_once {Secret : Type} (codes : TotpCodes Secret) {s₀ s : TotpState}
    {es : List TotpEvent} (hquiet : Quiet s₀) (h : exec (totpStep codes) s₀ es = some s) :
    (∀ userId, (countersOf userId s.accepted).Pairwise (· < ·) ∧
      (countersOf userId s.accepted).Nodup) ∧
        ∀ a ∈ s.accepted, InWindow a.counter a.readAt := by
  have hs : Ratchets s :=
    runs_inv (fun _ _ _ hm hstep => hm.step hstep) hquiet.ratchets h
  refine ⟨fun userId => ⟨(hs.cell userId).rising, ?_⟩, hs.accepted⟩
  exact (hs.cell userId).rising.imp fun hlt => hlt.ne

/-! ## A run on fixed inputs -/

/-- Codes that collide at every second counter. -/
def parityCodes : TotpCodes String where
  decryptSecret := some
  hotp _ counter := some (if counter % 2 = 0 then "000000" else "111111")

def noTotpCalls : TotpState :=
  { counters := Table.empty, transactions := [], calls := [], accepted := [] }

def adaEnrolled : List TwoFactorRow := [⟨"ada", "secret", some true⟩]

/-- One code twice at once, inside a transaction and outside; then again a minute
later, when it stands for two counters of the window. -/
def codeTwice : List TotpEvent :=
  [.begins, .read (some 0) adaEnrolled "ada" "111111" 90000,
    .read none adaEnrolled "ada" "111111" 90000, .upsert 0, .commit 0, .upsert 1,
    .read none adaEnrolled "ada" "111111" 120000, .upsert 2]

theorem totp_accepted_once_ada : ∃ s, exec (totpStep parityCodes) noTotpCalls codeTwice = some s ∧
    s.calls.map TotpCall.phase =
      [.answered .accepted, .answered .replayed, .answered .accepted] ∧
    (∀ userId, (countersOf userId s.accepted).Pairwise (· < ·) ∧
      (countersOf userId s.accepted).Nodup) ∧
        ∀ a ∈ s.accepted, InWindow a.counter a.readAt := by
  have hrun : (exec (totpStep parityCodes) noTotpCalls codeTwice).map
      (fun s => s.calls.map TotpCall.phase) =
        some [.answered .accepted, .answered .replayed, .answered .accepted] := by decide
  obtain ⟨s, hs, hphases⟩ := Option.map_eq_some_iff.1 hrun
  exact ⟨s, hs, hphases, totp_accepted_once parityCodes ⟨rfl, rfl, rfl⟩ hs⟩

end CleanStack.Auth
