import CleanStack.Auth.Seats
import CleanStack.Lib.Runs

/-!
# The seat cap

A hook that finds a seat keeps nothing for its request: until BetterAuth inserts
the row, every other count sees the seat free. Such a seat is promised. The
transactions of the SCIM plugin promise nothing to each other, since the lock
lets a second one count only when the first has ended, but a hook neither takes
the lock nor sees the rows of an open transaction.

The cap is kept along every run in which no join is let through to a seat that
is promised already. What carries the proof is that the members of every view
that may still be committed stay within the cap together with the promised
seats: the committed members themselves while a seat is promised, and the view
of a transaction once it has taken a seat.
-/

namespace CleanStack.Auth

open CleanStack.Lib CleanStack.Rgpd

/-! ## Promised seats -/

def promises (orgId : String) (r : HookRequest) : Bool :=
  r.path.joins && decide (r.organizationId = orgId) && decide (r.phase = .passed)

/-- The joins of an organization between their hook and their row. -/
def promised (s : SeatState) (orgId : String) : Nat := s.hooks.countP (promises orgId)

/-- Counts a seat that is found and not yet filled. -/
def Provisioning.unfilled (orgId : String) (p : Provisioning) : Nat :=
  match p.phase with
  | .adding o _ => if o = orgId then 1 else 0
  | _ => 0

/-- The members of an organization if a transaction went on and committed. -/
def Provisioning.expected (orgId : String) (members : List MemberRow) (p : Provisioning) : Nat :=
  seatsIn orgId (p.writes.view members) + p.unfilled orgId

def expectedOf (s : SeatState) (orgId : String) (t : Nat) : Nat :=
  match s.provisionings[t]? with
  | none => 0
  | some p => p.expected orgId s.members

/-- Whether a seat is left besides the promised ones, in the view of the count
and, for a hook, in the view of the transaction that holds the lock. -/
def leavesASeat (s : SeatState) (orgId : String) (maxMembers : Option Nat) : Option Nat → Bool
  | some t => hasSeatAvailable (countActiveMembers s (some t) orgId + promised s orgId) maxMembers
  | none =>
      hasSeatAvailable (countActiveMembers s none orgId + promised s orgId) maxMembers &&
        match s.locks (seatLockKey orgId) with
        | none => true
        | some t => hasSeatAvailable (expectedOf s orgId t + promised s orgId) maxMembers

/-- The organization, the transaction and the cap of the count a step makes for
somebody who is to join. -/
def countsFor (s : SeatState) : SeatEvent → Option (String × Option Nat × Option Nat)
  | .hook i =>
      match s.hooks[i]? with
      | none => none
      | some r =>
          match r.phase with
          | .checking (.counting maxMembers) =>
              if r.path.joins then some (r.organizationId, none, maxMembers) else none
          | _ => none
  | .scim t =>
      match s.provisionings[t]? with
      | none => none
      | some p =>
          match p.phase with
          | .checking orgId _ (.counting maxMembers) => some (orgId, some t, maxMembers)
          | _ => none
  | _ => none

/-- Nobody is let through to a seat of the organization that is promised. -/
def Unpromised (orgId : String) (s : SeatState) (e : SeatEvent) : Prop :=
  ∀ ambient maxMembers, countsFor s e = some (orgId, ambient, maxMembers) →
    hasSeatAvailable (countActiveMembers s ambient orgId) maxMembers = true →
    leavesASeat s orgId maxMembers ambient = true

/-! ## The invariant -/

def Provisioning.taken (orgId : String) (p : Provisioning) : Nat :=
  seatsIn orgId p.writes.inserted + p.unfilled orgId

/-- A transaction that has taken a seat, or is about to count with the lock. -/
def Provisioning.Locked (orgId : String) (p : Provisioning) : Prop :=
  0 < p.taken orgId ∨ ∃ userId maxMembers, p.phase = .checking orgId userId (.counting maxMembers)

structure WithinCap (orgId : String) (m : Nat) (s : SeatState) : Prop where
  plan : (s.plan orgId).maxMembers = some m
  hookCalls : ∀ r ∈ s.hooks, r.organizationId = orgId → ∀ maxMembers,
    r.phase = .checking (.counting maxMembers) → maxMembers = some m
  scimCalls : ∀ p ∈ s.provisionings, ∀ userId maxMembers,
    p.phase = .checking orgId userId (.locking maxMembers) ∨
      p.phase = .checking orgId userId (.counting maxMembers) → maxMembers = some m
  locked : ∀ t p, s.provisionings[t]? = some p → p.Locked orgId →
    s.locks (seatLockKey orgId) = some t
  promise : 0 < promised s orgId → seatsIn orgId s.members + promised s orgId ≤ m
  taken : ∀ p ∈ s.provisionings, 0 < p.taken orgId →
    p.expected orgId s.members + promised s orgId ≤ m

/-- Nothing is under way. -/
structure Idle (s : SeatState) : Prop where
  hooks : s.hooks = []
  provisionings : s.provisionings = []

variable {s s' : SeatState} {orgId : String} {m : Nat}

theorem Idle.withinCap (h : Idle s) (hplan : (s.plan orgId).maxMembers = some m) :
    WithinCap orgId m s := by
  obtain ⟨hhooks, hprov⟩ := h
  refine ⟨hplan, ?_, ?_, ?_, ?_, ?_⟩
  · rw [hhooks]
    exact nofun
  · rw [hprov]
    exact nofun
  · rw [hprov]
    exact nofun
  · rw [promised, hhooks]
    exact nofun
  · rw [hprov]
    exact nofun

theorem hasSeatAvailable_some {n : Nat} : hasSeatAvailable n (some m) = true ↔ n < m :=
  decide_eq_true_iff

theorem promised_set (orgId : String) {i : Nat} {r : HookRequest} (hi : s.hooks[i]? = some r)
    (r' : HookRequest) :
    (s.hooks.set i r').countP (promises orgId) + (if promises orgId r then 1 else 0) =
      promised s orgId + if promises orgId r' then 1 else 0 := by
  obtain ⟨hlt, hr⟩ := List.getElem?_eq_some_iff.1 hi
  have hpos : (if promises orgId r then 1 else 0) ≤ promised s orgId := by
    split
    · next hp => exact List.countP_pos_iff.2 ⟨r, List.mem_of_getElem? hi, hp⟩
    · exact Nat.zero_le _
  rw [List.countP_set hlt, hr]
  show promised s orgId - _ + _ + _ = _
  omega

/-! ## Hooks -/

section Hooks

/-- A request that moves on without being let through. -/
theorem WithinCap.setHook (h : WithinCap orgId m s) {i : Nat} {r r' : HookRequest}
    (hi : s.hooks[i]? = some r)
    (hcalls : r'.organizationId = orgId → ∀ maxMembers,
      r'.phase = .checking (.counting maxMembers) → maxMembers = some m)
    (hnot : promises orgId r' = false) : WithinCap orgId m (s.setHook i r') := by
  have hset := promised_set orgId hi r'
  rw [hnot] at hset
  have hle : promised (s.setHook i r') orgId ≤ promised s orgId := by
    show (s.hooks.set i r').countP (promises orgId) ≤ _
    simp only [Bool.false_eq_true, if_false] at hset
    omega
  refine ⟨h.plan, fun x hx => ?_, h.scimCalls, h.locked, fun hpos => ?_, fun p hp htook => ?_⟩
  · rcases List.mem_or_eq_of_mem_set hx with hx | rfl
    · exact h.hookCalls x hx
    · exact hcalls
  · have hold := h.promise (by omega)
    show seatsIn orgId s.members + _ ≤ m
    omega
  · have hold := h.taken p hp htook
    show p.expected orgId s.members + _ ≤ m
    omega

/-- A request that is let through. -/
theorem WithinCap.promiseSeat (h : WithinCap orgId m s) {i : Nat} {r r' : HookRequest}
    (hi : s.hooks[i]? = some r) (hphase : r'.phase = .passed)
    (hseat : promises orgId r' = true → leavesASeat s orgId (some m) none = true) :
    WithinCap orgId m (s.setHook i r') := by
  have hcalls : r'.organizationId = orgId → ∀ maxMembers,
      r'.phase = .checking (.counting maxMembers) → maxMembers = some m := by
    intro _ _ hcount
    rw [hphase] at hcount
    cases hcount
  by_cases hp : promises orgId r' = true
  · obtain ⟨hpool, hholder⟩ := Bool.and_eq_true_iff.1 (hseat hp)
    have hpool : seatsIn orgId s.members + promised s orgId < m := hasSeatAvailable_some.1 hpool
    have hset := promised_set orgId hi r'
    rw [if_pos hp] at hset
    have hle : promised (s.setHook i r') orgId ≤ promised s orgId + 1 := Nat.le.intro hset
    refine ⟨h.plan, fun x hx => ?_, h.scimCalls, h.locked, fun _ => ?_, fun p hmem htook => ?_⟩
    · rcases List.mem_or_eq_of_mem_set hx with hx | rfl
      · exact h.hookCalls x hx
      · exact hcalls
    · show seatsIn orgId s.members + _ ≤ m
      omega
    · obtain ⟨t, ht⟩ := List.getElem?_of_mem hmem
      have hexpected : expectedOf s orgId t = p.expected orgId s.members := by
        have ht : s.provisionings[t]? = some p := ht
        rw [expectedOf, ht]
      rw [h.locked t p ht (.inl htook)] at hholder
      have hheld : p.expected orgId s.members + promised s orgId < m :=
        hexpected ▸ hasSeatAvailable_some.1 hholder
      show p.expected orgId s.members + _ ≤ m
      omega
  · exact h.setHook hi hcalls (Bool.eq_false_iff.2 hp)

theorem promises_eq_true {r : HookRequest} :
    promises orgId r = true ↔
      r.path.joins = true ∧ r.organizationId = orgId ∧ r.phase = .passed := by
  simp [promises, and_assoc]

theorem promises_of_phase {r : HookRequest} (h : r.phase ≠ .passed) :
    promises orgId r = false :=
  Bool.eq_false_iff.2 fun hp => h (promises_eq_true.1 hp).2.2

/-- A request arrives. -/
theorem WithinCap.request (h : WithinCap orgId m s) (path : HookPath)
    (organizationId userId role : String) :
    WithinCap orgId m
      { s with hooks := s.hooks ++ [arrived path organizationId userId role] } := by
  have hnew : promises orgId (arrived path organizationId userId role) = false :=
    promises_of_phase nofun
  have hsame : (s.hooks ++ [arrived path organizationId userId role]).countP
      (promises orgId) = promised s orgId := by
    rw [List.countP_append, List.countP_singleton, hnew]
    rfl
  refine ⟨h.plan, fun r hr => ?_, h.scimCalls, h.locked, ?_, ?_⟩
  · rcases List.mem_append.1 hr with hr | hr
    · exact h.hookCalls r hr
    · cases List.mem_singleton.1 hr
      exact fun _ _ hcount => nomatch hcount
  · rw [promised, hsame]
    exact h.promise
  · rw [promised, hsame]
    exact h.taken

theorem WithinCap.hookNext (h : WithinCap orgId m s) {i : Nat} {r : HookRequest}
    (hi : s.hooks[i]? = some r) (hC : Unpromised orgId s (.hook i))
    (hs : hookNext s i r = some s') : WithinCap orgId m s' := by
  unfold Auth.hookNext at hs
  split at hs
  · next call hphase =>
      cases call with
      | entering =>
          cases hs
          refine h.setHook hi (fun horg maxMembers hcount => ?_) (promises_of_phase nofun)
          cases hcount
          rw [← h.plan, ← horg]
      | locking maxMembers => cases hs
      | counting maxMembers =>
          cases hs
          cases hcap : hasSeatAvailable (countActiveMembers s none r.organizationId) maxMembers with
          | false =>
              exact h.setHook hi (fun _ _ hcount => nomatch hcount) (promises_of_phase nofun)
          | true =>
              refine h.promiseSeat hi rfl fun hp => ?_
              obtain ⟨hjoins, horg, -⟩ := promises_eq_true.1 hp
              have horg : r.organizationId = orgId := horg
              have hjoins : r.path.joins = true := hjoins
              rw [horg] at hcap
              have hmax := h.hookCalls r (List.mem_of_getElem? hi) horg maxMembers hphase
              rw [← hmax]
              refine hC none maxMembers ?_ hcap
              simp only [countsFor, hi, hphase, hjoins, horg, if_true]
  · cases hs

/-- A promised seat is filled. -/
theorem WithinCap.insertMember (h : WithinCap orgId m s) {i : Nat} {r : HookRequest}
    {memberId : String} (hi : s.hooks[i]? = some r)
    (hs : insertMember s i r memberId = some s') :
    WithinCap orgId m s' ∧
      (r.path.joins = true → r.organizationId = orgId → seatsIn orgId s'.members ≤ m) := by
  unfold Auth.insertMember at hs
  split at hs
  · next hphase =>
      have hended : promises orgId { r with phase := .ended none } = false :=
        promises_of_phase nofun
      have hset := promised_set orgId hi { r with phase := .ended none }
      rw [hended] at hset
      cases hjoins : r.path.joins with
      | false =>
          rw [hjoins] at hs
          cases hs
          exact ⟨h.setHook hi (fun _ _ hcount => nomatch hcount) hended, nofun⟩
      | true =>
          rw [hjoins] at hs
          cases hs
          have hrow : promises orgId r = memberOfOrg orgId (memberRow r memberId) := by
            rw [Bool.eq_iff_iff, promises_eq_true]
            exact ⟨fun hp => decide_eq_true hp.2.1,
              fun hrow => ⟨hjoins, of_decide_eq_true hrow, hphase⟩⟩
          have hmembers : seatsIn orgId (memberRow r memberId :: s.members) =
              seatsIn orgId s.members + if promises orgId r then 1 else 0 := by
            rw [hrow]
            exact List.countP_cons
          have hpromised : (s.hooks.set i { r with phase := .ended none }).countP
              (promises orgId) + (if promises orgId r then 1 else 0) = promised s orgId := hset
          refine ⟨⟨h.plan, fun x hx => ?_, h.scimCalls, h.locked, fun hpos => ?_,
            fun p hp htook => ?_⟩, fun _ horg => ?_⟩
          · rcases List.mem_or_eq_of_mem_set hx with hx | rfl
            · exact h.hookCalls x hx
            · exact fun _ _ hcount => nomatch hcount
          · show seatsIn orgId (memberRow r memberId :: s.members) +
              (s.hooks.set i { r with phase := .ended none }).countP (promises orgId) ≤ m
            have hpos : 0 < (s.hooks.set i { r with phase := .ended none }).countP
              (promises orgId) := hpos
            have hold := h.promise (by omega)
            omega
          · show p.expected orgId (memberRow r memberId :: s.members) +
              (s.hooks.set i { r with phase := .ended none }).countP (promises orgId) ≤ m
            have hview : p.expected orgId (memberRow r memberId :: s.members) ≤
                p.expected orgId s.members + if promises orgId r then 1 else 0 := by
              have hcons : (p.writes.view (memberRow r memberId :: s.members)).countP
                  (memberOfOrg orgId) ≤ (p.writes.view s.members).countP (memberOfOrg orgId) +
                  if memberOfOrg orgId (memberRow r memberId) then 1 else 0 :=
                Writes.countP_view_cons_le _
              rw [← hrow] at hcons
              unfold Provisioning.expected seatsIn
              omega
            have hold := h.taken p hp htook
            omega
          · have hp : promises orgId r = true := promises_eq_true.2 ⟨hjoins, horg, hphase⟩
            rw [if_pos hp] at hmembers hpromised
            have hold := h.promise (by omega)
            show seatsIn orgId (memberRow r memberId :: s.members) ≤ m
            omega
  · cases hs

end Hooks

/-! ## Transactions -/

section Provisionings

/-- The members are fewer, or as many as every open view and every promise
allows. -/
theorem WithinCap.setMembers (h : WithinCap orgId m s) {members : List MemberRow}
    (hpromise : 0 < promised s orgId → seatsIn orgId members + promised s orgId ≤ m)
    (htaken : ∀ p ∈ s.provisionings, 0 < p.taken orgId →
      p.expected orgId members + promised s orgId ≤ m) :
    WithinCap orgId m { s with members } :=
  ⟨h.plan, h.hookCalls, h.scimCalls, h.locked, hpromise, htaken⟩

theorem expected_le {p : Provisioning} {members members' : List MemberRow}
    (hsub : (members'.filter (memberOfOrg orgId)).Sublist
      (members.filter (memberOfOrg orgId))) :
    p.expected orgId members' ≤ p.expected orgId members :=
  Nat.add_le_add_right (Writes.countP_view_le hsub) _

theorem seatsIn_le {members members' : List MemberRow}
    (hsub : (members'.filter (memberOfOrg orgId)).Sublist
      (members.filter (memberOfOrg orgId))) :
    seatsIn orgId members' ≤ seatsIn orgId members := by
  rw [seatsIn, seatsIn, List.countP_eq_length_filter, List.countP_eq_length_filter]
  exact hsub.length_le

/-- Members leave. -/
theorem WithinCap.fewer (h : WithinCap orgId m s) {members : List MemberRow}
    (hsub : (members.filter (memberOfOrg orgId)).Sublist
      (s.members.filter (memberOfOrg orgId))) :
    WithinCap orgId m { s with members } := by
  refine h.setMembers (fun hpos => ?_) fun p hp htook => ?_
  · have hle := seatsIn_le hsub
    have hold := h.promise hpos
    omega
  · have hle := expected_le (p := p) hsub
    have hold := h.taken p hp htook
    omega

theorem WithinCap.setProvisioning (h : WithinCap orgId m s) {t : Nat} {p p' : Provisioning}
    (ht : s.provisionings[t]? = some p)
    (hcalls : ∀ userId maxMembers, p'.phase = .checking orgId userId (.locking maxMembers) ∨
      p'.phase = .checking orgId userId (.counting maxMembers) → maxMembers = some m)
    (hlocked : p'.Locked orgId → s.locks (seatLockKey orgId) = some t)
    (htaken : 0 < p'.taken orgId → p'.expected orgId s.members + promised s orgId ≤ m) :
    WithinCap orgId m (s.setProvisioning t p') := by
  have hlt : t < s.provisionings.length := (List.getElem?_eq_some_iff.1 ht).1
  refine ⟨h.plan, h.hookCalls, fun x hx => ?_, fun t' x hx => ?_, h.promise, fun x hx => ?_⟩
  · rcases List.mem_or_eq_of_mem_set hx with hx | rfl
    · exact h.scimCalls x hx
    · exact hcalls
  · have hx : (s.provisionings.set t p')[t']? = some x := hx
    rcases getElem?_set_cases hx with ⟨rfl, rfl⟩ | ⟨-, hold⟩
    · exact hlocked
    · exact h.locked t' x hold
  · rcases List.mem_or_eq_of_mem_set hx with hx | rfl
    · exact h.taken x hx
    · exact htaken

/-- A transaction ends, and the others keep their locks. -/
theorem WithinCap.endProvisioning (h : WithinCap orgId m s) {t : Nat} {p : Provisioning}
    (ht : s.provisionings[t]? = some p) (error : Option APIError) :
    WithinCap orgId m (s.endProvisioning t error) := by
  have hlt : t < s.provisionings.length := (List.getElem?_eq_some_iff.1 ht).1
  have hnone : ¬ (⟨Writes.empty, .ended error⟩ : Provisioning).Locked orgId := by
    rintro (htook | ⟨userId, maxMembers, hphase⟩)
    · exact absurd htook (Nat.lt_irrefl 0)
    · cases hphase
  refine ⟨h.plan, h.hookCalls, fun x hx => ?_, fun t' x hx hlocked => ?_, h.promise,
    fun x hx htook => ?_⟩
  · rcases List.mem_or_eq_of_mem_set hx with hx | rfl
    · exact h.scimCalls x hx
    · rintro userId maxMembers (hphase | hphase) <;> cases hphase
  · have hx : (s.provisionings.set t ⟨Writes.empty, .ended error⟩)[t']? = some x := hx
    rcases getElem?_set_cases hx with ⟨rfl, rfl⟩ | ⟨htt, hold⟩
    · exact absurd hlocked hnone
    · have hkey := h.locked t' x hold hlocked
      show (if s.locks (seatLockKey orgId) = some t then none
        else s.locks (seatLockKey orgId)) = some t'
      rw [hkey, if_neg fun hsame => htt (Option.some.inj hsame)]
  · rcases List.mem_or_eq_of_mem_set hx with hx | rfl
    · exact h.taken x hx htook
    · exact absurd (.inl htook) hnone

theorem expected_eq_of_idle {p : Provisioning} (hidle : p.phase = .idle)
    (members : List MemberRow) : p.expected orgId members = seatsIn orgId (p.writes.view members) := by
  rw [Provisioning.expected, Provisioning.unfilled, hidle]
  rfl

theorem taken_eq_of_idle {p : Provisioning} (hidle : p.phase = .idle) :
    p.taken orgId = seatsIn orgId p.writes.inserted := by
  rw [Provisioning.taken, Provisioning.unfilled, hidle]
  rfl

/-- The view of a transaction becomes the members. -/
theorem WithinCap.commit (h : WithinCap orgId m s) {t : Nat} {p : Provisioning}
    (ht : s.provisionings[t]? = some p) (hidle : p.phase = .idle) :
    WithinCap orgId m { s.endProvisioning t none with members := p.writes.view s.members } ∧
      (0 < seatsIn orgId p.writes.inserted →
        seatsIn orgId (p.writes.view s.members) ≤ m) := by
  have hended := h.endProvisioning ht none
  have hmem : p ∈ s.provisionings := List.mem_of_getElem? ht
  by_cases htook : 0 < p.taken orgId
  · have hview := h.taken p hmem htook
    rw [expected_eq_of_idle hidle] at hview
    refine ⟨hended.setMembers (fun _ => hview) fun x hx hxtook => ?_, fun _ => by omega⟩
    -- two transactions that have taken a seat would both hold the lock
    exfalso
    obtain ⟨t', ht'⟩ := List.getElem?_of_mem hx
    have hlock := hended.locked t' x ht' (.inl hxtook)
    have hheld := h.locked t p ht (.inl htook)
    have hfree : (s.endProvisioning t none).locks (seatLockKey orgId) = none := if_pos hheld
    rw [hfree] at hlock
    cases hlock
  · rw [taken_eq_of_idle hidle] at htook
    refine ⟨hended.fewer (Writes.filter_view_sublist fun r hr => ?_), fun hpos => absurd hpos htook⟩
    exact Bool.eq_false_iff.2 fun hp => htook (List.countP_pos_iff.2 ⟨r, hr, hp⟩)

theorem not_locked_idle :
    ¬ (⟨Writes.empty, .idle⟩ : Provisioning).Locked orgId := by
  rintro (htook | ⟨userId, maxMembers, hphase⟩)
  · exact absurd htook (Nat.lt_irrefl 0)
  · cases hphase

/-- The plugin opens a transaction. -/
theorem WithinCap.beginScim (h : WithinCap orgId m s) :
    WithinCap orgId m
      { s with provisionings := s.provisionings ++ [⟨Writes.empty, .idle⟩] } := by
  refine ⟨h.plan, h.hookCalls, fun p hp => ?_, fun t p ht hlocked => ?_, h.promise,
    fun p hp htook => ?_⟩
  · rcases List.mem_append.1 hp with hp | hp
    · exact h.scimCalls p hp
    · cases List.mem_singleton.1 hp
      rintro userId maxMembers (hphase | hphase) <;> cases hphase
  · rw [List.getElem?_append] at ht
    split at ht
    · exact h.locked t p ht hlocked
    · cases List.mem_singleton.1 (List.mem_of_getElem? ht)
      exact absurd hlocked not_locked_idle
  · rcases List.mem_append.1 hp with hp | hp
    · exact h.taken p hp htook
    · cases List.mem_singleton.1 hp
      exact absurd (.inl htook) not_locked_idle

/-- A transaction that has taken no more than before, and goes on. -/
theorem WithinCap.keepTaken (h : WithinCap orgId m s) {t : Nat} {p p' : Provisioning}
    (ht : s.provisionings[t]? = some p)
    (hcalls : ∀ userId maxMembers, p'.phase = .checking orgId userId (.locking maxMembers) ∨
      p'.phase = .checking orgId userId (.counting maxMembers) → maxMembers = some m)
    (hcount : ∀ userId maxMembers, p'.phase = .checking orgId userId (.counting maxMembers) →
      s.locks (seatLockKey orgId) = some t)
    (htaken : p'.taken orgId ≤ p.taken orgId)
    (hexpected : p'.expected orgId s.members ≤ p.expected orgId s.members) :
    WithinCap orgId m (s.setProvisioning t p') := by
  refine h.setProvisioning ht hcalls ?_ fun htook => ?_
  · rintro (htook | ⟨userId, maxMembers, hphase⟩)
    · exact h.locked t p ht (.inl (by omega))
    · exact hcount userId maxMembers hphase
  · have hold := h.taken p (List.mem_of_getElem? ht) (by omega)
    omega

/-- A transaction that goes on with the writes it has, and no seat to fill. -/
theorem WithinCap.setPhase (h : WithinCap orgId m s) {t : Nat} {p : Provisioning}
    (ht : s.provisionings[t]? = some p) {phase : ScimPhase}
    (hcalls : ∀ userId maxMembers, phase = .checking orgId userId (.locking maxMembers) ∨
      phase = .checking orgId userId (.counting maxMembers) → maxMembers = some m)
    (hcount : ∀ userId maxMembers, phase = .checking orgId userId (.counting maxMembers) →
      s.locks (seatLockKey orgId) = some t)
    (hnone : ({ p with phase } : Provisioning).unfilled orgId = 0) :
    WithinCap orgId m (s.setProvisioning t { p with phase }) := by
  refine h.keepTaken ht hcalls hcount ?_ ?_
  · rw [Provisioning.taken, hnone]
    exact Nat.le_add_right _ _
  · rw [Provisioning.expected, hnone]
    exact Nat.le_add_right _ _

/-- A projection that finds its user changes nothing, and one that removes a
member leaves fewer. -/
theorem WithinCap.reconcile (h : WithinCap orgId m s) {t : Nat} {p : Provisioning}
    (ht : s.provisionings[t]? = some p) (hidle : p.phase = .idle)
    (organizationId userId : String) (active : Bool) :
    WithinCap orgId m
      (s.setProvisioning t (reconcileUser s t p organizationId userId active)) := by
  have hmem : p ∈ s.provisionings := List.mem_of_getElem? ht
  have hsame : WithinCap orgId m (s.setProvisioning t p) :=
    h.setProvisioning ht (h.scimCalls p hmem) (h.locked t p ht) (h.taken p hmem)
  unfold reconcileUser
  split
  · exact hsame
  · refine h.setPhase ht ?_ (fun _ _ hphase => nomatch hphase) rfl
    rintro _ _ (hphase | hphase) <;> cases hphase
  · next member _ =>
      split
      · exact hsame
      · have hidle' : ({ p with writes := p.writes.delete member.id } : Provisioning).phase =
            .idle := hidle
        refine h.keepTaken ht (h.scimCalls p hmem) (fun _ _ hphase => ?_) ?_ ?_
        · rw [hidle'] at hphase
          cases hphase
        · rw [taken_eq_of_idle hidle, taken_eq_of_idle hidle']
          exact List.Sublist.countP_le List.filter_sublist
        · rw [expected_eq_of_idle hidle, expected_eq_of_idle hidle']
          exact Writes.countP_delete_le member.id
  · exact hsame

theorem WithinCap.createMember (h : WithinCap orgId m s) {t : Nat} {p : Provisioning}
    {memberId : String} (ht : s.provisionings[t]? = some p)
    (hs : createMember s t p memberId = some s') : WithinCap orgId m s' := by
  unfold Auth.createMember at hs
  split at hs
  · next organizationId userId hphase =>
      cases hs
      have hfilled : p.unfilled orgId =
          if memberOfOrg orgId ⟨memberId, organizationId, userId, "member"⟩ then 1 else 0 := by
        rw [Provisioning.unfilled, hphase]
        simp [memberOfOrg]
      refine h.keepTaken ht ?_ (fun _ _ hphase => nomatch hphase) ?_ ?_
      · rintro _ _ (hphase | hphase) <;> cases hphase
      · rw [taken_eq_of_idle rfl, Provisioning.taken, hfilled, seatsIn, Writes.insert,
          List.countP_cons]
        exact Nat.le_refl _
      · rw [expected_eq_of_idle rfl, Provisioning.expected, hfilled, seatsIn,
          Writes.countP_insert]
        exact Nat.le_refl _
  · cases hs

theorem WithinCap.lockSeatsOf (h : WithinCap orgId m s) {t : Nat} {organizationId : String}
    (hs : lockSeatsOf s t organizationId = some s') :
    WithinCap orgId m s' ∧ s'.locks (seatLockKey organizationId) = some t := by
  unfold Auth.lockSeatsOf at hs
  split at hs
  · next hfree =>
      cases hs
      refine ⟨⟨h.plan, h.hookCalls, h.scimCalls, fun t' x hx hlocked => ?_, h.promise, h.taken⟩,
        if_pos rfl⟩
      have hkey := h.locked t' x hx hlocked
      show (if seatLockKey orgId = seatLockKey organizationId then some t
        else s.locks (seatLockKey orgId)) = some t'
      split
      · next hsame =>
          rw [← hsame, hkey] at hfree
          rcases hfree with hnone | hheld
          · cases hnone
          · exact hheld.symm
      · exact hkey
  · cases hs

theorem WithinCap.scimNext (h : WithinCap orgId m s) {t : Nat} {p : Provisioning}
    (ht : s.provisionings[t]? = some p) (hC : Unpromised orgId s (.scim t))
    (hs : scimNext s t p = some s') : WithinCap orgId m s' := by
  have hmem : p ∈ s.provisionings := List.mem_of_getElem? ht
  unfold Auth.scimNext at hs
  split at hs
  · next organizationId userId hphase =>
      split at hs
      · cases hs
        refine h.setPhase ht ?_ (fun _ _ hphase => nomatch hphase) rfl
        rintro _ _ (hphase | hphase) <;> cases hphase
      · cases hs
        exact h.endProvisioning ht (some planRequired)
  · next organizationId userId call hphase =>
      cases call with
      | entering =>
          cases hs
          refine h.setPhase ht ?_ (fun _ _ hphase => nomatch hphase) rfl
          rintro _ _ (hnext | hnext)
          · cases hnext
            exact h.plan
          · cases hnext
      | locking maxMembers =>
          obtain ⟨next, hcall, rfl⟩ := Option.map_eq_some_iff.1 hs
          obtain ⟨s₁, hlock, rfl⟩ := Option.map_eq_some_iff.1 hcall
          obtain ⟨h₁, hheld⟩ := h.lockSeatsOf hlock
          have hprov : s₁.provisionings = s.provisionings := by
            unfold Auth.lockSeatsOf at hlock
            split at hlock
            · cases hlock
              rfl
            · cases hlock
          rw [← hprov] at ht
          refine h₁.setPhase ht ?_ ?_ rfl
          · rintro _ _ (hnext | hnext)
            · cases hnext
            · cases hnext
              exact h.scimCalls p hmem _ _ (.inl hphase)
          · intro _ _ hnext
            cases hnext
            exact hheld
      | counting maxMembers =>
          cases hs
          cases hcap : hasSeatAvailable (countActiveMembers s (some t) organizationId)
            maxMembers with
          | false => exact h.endProvisioning ht _
          | true =>
              by_cases horg : organizationId = orgId
              · subst horg
                have hcounted : p.Locked organizationId := .inr ⟨userId, maxMembers, hphase⟩
                have hmax := h.scimCalls p hmem _ _ (.inr hphase)
                have hseat := hC (some t) maxMembers
                  (by simp only [countsFor, ht, hphase]) hcap
                rw [hmax] at hseat
                have hseat : seatsIn organizationId (membersSeen s (some t)) +
                    promised s organizationId < m := hasSeatAvailable_some.1 hseat
                have hseen : membersSeen s (some t) = p.writes.view s.members := by
                  simp only [membersSeen, ht]
                rw [hseen] at hseat
                refine h.setProvisioning ht ?_ (fun _ => h.locked t p ht hcounted) fun _ => ?_
                · rintro _ _ (hnext | hnext) <;> cases hnext
                · have hone : ({ p with phase := .adding organizationId userId } :
                      Provisioning).unfilled organizationId = 1 := if_pos rfl
                  rw [Provisioning.expected, hone]
                  show seatsIn organizationId (p.writes.view s.members) + 1 + _ ≤ m
                  omega
              · refine h.setPhase ht ?_ (fun _ _ hnext => nomatch hnext) (if_neg horg)
                rintro _ _ (hnext | hnext) <;> cases hnext
  · cases hs

end Provisionings

/-! ## Runs -/

section Run

/-- The plan of the organization keeps its cap. -/
def KeepsCap (orgId : String) (m : Nat) (e : SeatEvent) : Prop :=
  ∀ view, e = .setPlan orgId view → view.maxMembers = some m

/-- A step that commits a member of the organization leaves it within the cap:
there was a seat for every row it committed. -/
def CommitsWithinCap (orgId : String) (m : Nat) (s : SeatState) (e : SeatEvent) : Prop :=
  (∃ row ∈ committedRows s e, row.organizationId = orgId) →
    ∀ s', seatStep s e = some s' → seatsIn orgId s'.members ≤ m

theorem seats_step {e : SeatEvent} (h : WithinCap orgId m s) (hkeeps : KeepsCap orgId m e)
    (hC : Unpromised orgId s e) (hs : seatStep s e = some s') :
    WithinCap orgId m s' ∧
      ((∃ row ∈ committedRows s e, row.organizationId = orgId) → seatsIn orgId s'.members ≤ m) := by
  cases e with
  | request path organizationId userId role =>
      cases hs
      exact ⟨h.request path organizationId userId role, nofun⟩
  | hook i =>
      obtain ⟨r, hi, hs⟩ := Option.bind_eq_some_iff.1 hs
      exact ⟨h.hookNext hi hC hs, nofun⟩
  | insert i memberId =>
      obtain ⟨r, hi, hs⟩ := Option.bind_eq_some_iff.1 hs
      obtain ⟨hkept, hrow⟩ := h.insertMember hi hs
      refine ⟨hkept, fun ⟨row, hmem, horg⟩ => ?_⟩
      simp only [committedRows, hi] at hmem
      split at hmem
      · next hjoins =>
          cases List.mem_singleton.1 hmem
          exact hrow hjoins horg
      · cases hmem
  | abandon i =>
      obtain ⟨r, hi, rfl⟩ := Option.map_eq_some_iff.1 hs
      exact ⟨h.setHook hi (fun _ _ hcount => nomatch hcount) (promises_of_phase nofun), nofun⟩
  | beginScim =>
      cases hs
      exact ⟨h.beginScim, nofun⟩
  | reconcile t organizationId userId active =>
      obtain ⟨p, ht, hs⟩ := Option.bind_eq_some_iff.1 hs
      split at hs
      · next hidle =>
          cases hs
          exact ⟨h.reconcile ht hidle organizationId userId active, nofun⟩
      · cases hs
  | scim t =>
      obtain ⟨p, ht, hs⟩ := Option.bind_eq_some_iff.1 hs
      exact ⟨h.scimNext ht hC hs, nofun⟩
  | create t memberId =>
      obtain ⟨p, ht, hs⟩ := Option.bind_eq_some_iff.1 hs
      exact ⟨h.createMember ht hs, nofun⟩
  | commit t =>
      obtain ⟨p, ht, hs⟩ := Option.bind_eq_some_iff.1 hs
      split at hs
      · next hidle =>
          cases hs
          obtain ⟨hkept, hrows⟩ := h.commit ht hidle
          refine ⟨hkept, fun ⟨row, hmem, horg⟩ => hrows ?_⟩
          simp only [committedRows, ht] at hmem
          exact List.countP_pos_iff.2 ⟨row, hmem, decide_eq_true horg⟩
      · cases hs
  | rollback t =>
      obtain ⟨p, ht, hs⟩ := Option.bind_eq_some_iff.1 hs
      split at hs
      · cases hs
        exact ⟨h.endProvisioning ht none, nofun⟩
      · cases hs
  | leave memberId =>
      cases hs
      exact ⟨h.fewer (List.filter_sublist.filter _), nofun⟩
  | setPlan organizationId view =>
      cases hs
      refine ⟨⟨?_, h.hookCalls, h.scimCalls, h.locked, h.promise, h.taken⟩, nofun⟩
      show (if orgId = organizationId then view else s.plan orgId).maxMembers = some m
      split
      · next hsame => exact hkeeps view (by rw [hsame])
      · exact h.plan

/-- A step leaves the members and the requests of the hooks as they are. -/
def SameRows (s s' : SeatState) : Prop := s'.members = s.members ∧ s'.hooks = s.hooks

theorem seatCapFor_same {ambient : Option Nat} {call : SeatCapCall}
    {answer : SeatCapCall ⊕ SeatCap} (h : seatCapFor s ambient orgId call = some (s', answer)) :
    SameRows s s' := by
  cases call with
  | entering =>
      cases h
      exact ⟨rfl, rfl⟩
  | locking maxMembers =>
      cases ambient with
      | none => cases h
      | some t =>
          obtain ⟨s₁, hlock, hsame⟩ := Option.map_eq_some_iff.1 h
          cases hsame
          unfold lockSeatsOf at hlock
          split at hlock
          · cases hlock
            exact ⟨rfl, rfl⟩
          · cases hlock
  | counting maxMembers =>
      cases h
      exact ⟨rfl, rfl⟩

theorem hookNext_members {i : Nat} {r : HookRequest} (h : hookNext s i r = some s') :
    s'.members = s.members := by
  unfold hookNext at h
  split at h
  · obtain ⟨⟨s₁, answer⟩, hcall, rfl⟩ := Option.map_eq_some_iff.1 h
    rw [← (seatCapFor_same hcall).1]
    cases answer <;> rfl
  · cases h

theorem scimNext_same {t : Nat} {p : Provisioning} (h : scimNext s t p = some s') :
    SameRows s s' := by
  unfold scimNext at h
  split at h
  · split at h
    · cases h
      exact ⟨rfl, rfl⟩
    · cases h
      exact ⟨rfl, rfl⟩
  · obtain ⟨⟨s₁, answer⟩, hcall, rfl⟩ := Option.map_eq_some_iff.1 h
    have hsame := seatCapFor_same hcall
    cases answer with
    | inl next => exact hsame
    | inr cap =>
        by_cases hcap : cap.available = true
        · simp only [hcap, if_true]
          exact hsame
        · simp only [hcap]
          exact hsame
  · cases h

theorem createMember_same {t : Nat} {p : Provisioning} {memberId : String}
    (h : createMember s t p memberId = some s') : SameRows s s' := by
  unfold createMember at h
  split at h
  · cases h
    exact ⟨rfl, rfl⟩
  · cases h

/-- The members of an organization only grow by the rows a step commits. -/
theorem seats_grow {e : SeatEvent} (hs : seatStep s e = some s')
    (hnone : ¬ ∃ row ∈ committedRows s e, row.organizationId = orgId) :
    seatsIn orgId s'.members ≤ seatsIn orgId s.members := by
  have hsame : s'.members = s.members → seatsIn orgId s'.members ≤ seatsIn orgId s.members :=
    fun h => Nat.le_of_eq (by rw [h])
  cases e with
  | hook i =>
      obtain ⟨r, -, hs⟩ := Option.bind_eq_some_iff.1 hs
      exact hsame (hookNext_members hs)
  | insert i memberId =>
      obtain ⟨r, hi, hs⟩ := Option.bind_eq_some_iff.1 hs
      simp only [committedRows, hi] at hnone
      unfold insertMember at hs
      split at hs
      · cases hs
        cases hjoins : r.path.joins with
        | false => exact Nat.le_refl _
        | true =>
            rw [if_pos hjoins] at hnone
            have hother : memberOfOrg orgId (memberRow r memberId) = false :=
              decide_eq_false fun horg => hnone ⟨_, List.mem_singleton_self _, horg⟩
            show seatsIn orgId (memberRow r memberId :: s.members) ≤ _
            rw [seatsIn, List.countP_cons, hother]
            exact Nat.le_refl _
      · cases hs
  | abandon i =>
      obtain ⟨r, -, rfl⟩ := Option.map_eq_some_iff.1 hs
      exact hsame rfl
  | reconcile t organizationId userId active =>
      obtain ⟨p, -, hs⟩ := Option.bind_eq_some_iff.1 hs
      split at hs
      · cases hs
        exact hsame rfl
      · cases hs
  | scim t =>
      obtain ⟨p, -, hs⟩ := Option.bind_eq_some_iff.1 hs
      exact hsame (scimNext_same hs).1
  | create t memberId =>
      obtain ⟨p, -, hs⟩ := Option.bind_eq_some_iff.1 hs
      exact hsame (createMember_same hs).1
  | commit t =>
      obtain ⟨p, ht, hs⟩ := Option.bind_eq_some_iff.1 hs
      simp only [committedRows, ht] at hnone
      split at hs
      · cases hs
        exact seatsIn_le (Writes.filter_view_sublist fun r hr =>
          decide_eq_false fun horg => hnone ⟨r, hr, horg⟩)
      · cases hs
  | rollback t =>
      obtain ⟨p, -, hs⟩ := Option.bind_eq_some_iff.1 hs
      split at hs
      · cases hs
        exact hsame rfl
      · cases hs
  | leave memberId =>
      cases hs
      exact seatsIn_le (List.filter_sublist.filter _)
  | request path organizationId userId role =>
      cases hs
      exact hsame rfl
  | beginScim =>
      cases hs
      exact hsame rfl
  | setPlan organizationId view =>
      cases hs
      exact hsame rfl

/-- What a step has to meet: the cap of the plan stays, and nobody is let through
to a promised seat. -/
def Seated (orgId : String) (m : Nat) (s : SeatState) (e : SeatEvent) : Prop :=
  KeepsCap orgId m e ∧ Unpromised orgId s e

theorem withinCap_step {e : SeatEvent} (h : WithinCap orgId m s) (hC : Seated orgId m s e)
    (hs : seatStep s e = some s') : WithinCap orgId m s' :=
  (seats_step h hC.1 hC.2 hs).1

theorem commits_of_seated {e : SeatEvent} (h : WithinCap orgId m s) (hC : Seated orgId m s e) :
    CommitsWithinCap orgId m s e :=
  fun hrow _ hs => (seats_step h hC.1 hC.2 hs).2 hrow

theorem commits_of_meets {es : List SeatEvent} (h : WithinCap orgId m s)
    (hmeets : Meets seatStep (Seated orgId m) s es) :
    Meets seatStep (CommitsWithinCap orgId m) s es := by
  have hcommits : ∀ x e, WithinCap orgId m x → Seated orgId m x e →
      CommitsWithinCap orgId m x e := fun _ _ hx hC => commits_of_seated hx hC
  have hstep : ∀ x e y, WithinCap orgId m x → Seated orgId m x e → seatStep x e = some y →
      WithinCap orgId m y := fun _ _ _ hx hC hs => withinCap_step hx hC hs
  exact meets_imp hcommits hstep h hmeets

/-! ## Transactions alone -/

def SeatEvent.isRequest : SeatEvent → Bool
  | .request _ _ _ _ => true
  | _ => false

/-- Without requests there is no hook to run. -/
theorem no_hooks_step {e : SeatEvent} (h : s.hooks = []) (he : e.isRequest = false)
    (hs : seatStep s e = some s') : s'.hooks = [] := by
  have hnone : ∀ i : Nat, s.hooks[i]? = none := fun i => by rw [h, List.getElem?_nil]
  cases e with
  | request path organizationId userId role => cases he
  | hook i =>
      simp only [seatStep, hnone i, Option.bind_none] at hs
      cases hs
  | insert i memberId =>
      simp only [seatStep, hnone i, Option.bind_none] at hs
      cases hs
  | abandon i =>
      simp only [seatStep, hnone i, Option.map_none] at hs
      cases hs
  | reconcile t organizationId userId active =>
      obtain ⟨p, -, hs⟩ := Option.bind_eq_some_iff.1 hs
      split at hs
      · cases hs
        exact h
      · cases hs
  | scim t =>
      obtain ⟨p, -, hs⟩ := Option.bind_eq_some_iff.1 hs
      exact (scimNext_same hs).2.trans h
  | create t memberId =>
      obtain ⟨p, -, hs⟩ := Option.bind_eq_some_iff.1 hs
      exact (createMember_same hs).2.trans h
  | commit t =>
      obtain ⟨p, -, hs⟩ := Option.bind_eq_some_iff.1 hs
      split at hs
      · cases hs
        exact h
      · cases hs
  | rollback t =>
      obtain ⟨p, -, hs⟩ := Option.bind_eq_some_iff.1 hs
      split at hs
      · cases hs
        exact h
      · cases hs
  | beginScim =>
      cases hs
      exact h
  | leave memberId =>
      cases hs
      exact h
  | setPlan organizationId view =>
      cases hs
      exact h

theorem unpromised_of_no_hooks {e : SeatEvent} (h : s.hooks = []) :
    Unpromised orgId s e := by
  intro ambient maxMembers hcount hseat
  have hnone : promised s orgId = 0 := by
    rw [promised, h]
    rfl
  cases e with
  | hook i =>
      rw [countsFor, h, List.getElem?_nil] at hcount
      cases hcount
  | scim t =>
      simp only [countsFor] at hcount
      split at hcount
      · cases hcount
      · split at hcount
        · cases hcount
          show hasSeatAvailable (countActiveMembers s (some t) orgId + promised s orgId) _ = true
          rw [hnone]
          exact hseat
        · cases hcount
  | _ => cases hcount

/-- The transactions of the SCIM plugin keep the cap among themselves, however
they interleave. -/
theorem provisionings_keep_cap {es : List SeatEvent} (hidle : Idle s)
    (hplan : (s.plan orgId).maxMembers = some m) (hkeeps : ∀ e ∈ es, KeepsCap orgId m e)
    (hscim : ∀ e ∈ es, e.isRequest = false) :
    Meets seatStep (CommitsWithinCap orgId m) s es := by
  have hevents : Meets seatStep (fun _ e => (KeepsCap orgId m e ∧ e.isRequest = false) ∧ True)
      s es :=
    meets_and_of_mem (fun e he => ⟨hkeeps e he, hscim e he⟩)
      (meets_of_forall (fun _ _ => trivial) es s)
  have hseated : ∀ x e, x.hooks = [] → (KeepsCap orgId m e ∧ e.isRequest = false) ∧ True →
      Seated orgId m x e := fun _ _ hx he => ⟨he.1.1, unpromised_of_no_hooks hx⟩
  have hstep : ∀ x e y, x.hooks = [] → (KeepsCap orgId m e ∧ e.isRequest = false) ∧ True →
      seatStep x e = some y → y.hooks = [] := fun _ _ _ hx he hs => no_hooks_step hx he.1.2 hs
  exact commits_of_meets (hidle.withinCap hplan) (meets_imp hseated hstep hidle.hooks hevents)

/-! ## All paths -/

/-- In every run that starts with nothing under way, keeps the cap of the plan and
lets nobody through to a promised seat, a member is committed only to a seat that
is left, and an organization within its cap stays within it. -/
theorem seat_cap_kept {es : List SeatEvent} (hidle : Idle s)
    (hplan : (s.plan orgId).maxMembers = some m) (hkeeps : ∀ e ∈ es, KeepsCap orgId m e)
    (hC : Meets seatStep (Unpromised orgId) s es) :
    Meets seatStep (CommitsWithinCap orgId m) s es ∧
      ∀ t, exec seatStep s es = some t → seatsIn orgId s.members ≤ m →
        seatsIn orgId t.members ≤ m := by
  have hmeets : Meets seatStep (Seated orgId m) s es := meets_and_of_mem hkeeps hC
  refine ⟨commits_of_meets (hidle.withinCap hplan) hmeets, fun t hrun hstart => ?_⟩
  have hboth : ∀ x e y, WithinCap orgId m x ∧ seatsIn orgId x.members ≤ m →
      Seated orgId m x e → seatStep x e = some y →
      WithinCap orgId m y ∧ seatsIn orgId y.members ≤ m := by
    intro x e y ⟨hx, hle⟩ hmeet hs
    refine ⟨withinCap_step hx hmeet hs, ?_⟩
    by_cases hrow : ∃ row ∈ committedRows x e, row.organizationId = orgId
    · exact commits_of_seated hx hmeet hrow y hs
    · exact (seats_grow hs hrow).trans hle
  exact (runs_inv_meets hboth ⟨hidle.withinCap hplan, hstart⟩ hmeets hrun).2

end Run

/-! ## Two invitations for one seat -/

def twoMembers (view : EntitlementsView) : SeatState where
  members := [⟨"m1", "acme", "ada", "owner"⟩, ⟨"m2", "acme", "bob", "member"⟩]
  plan := fun _ => view
  locks := fun _ => none
  hooks := []
  provisionings := []

def SeatEvent.setsPlan : SeatEvent → Bool
  | .setPlan _ _ => true
  | _ => false

theorem keepsCap_of_test {es : List SeatEvent} (h : (es.all fun e => !e.setsPlan) = true) :
    ∀ e ∈ es, KeepsCap orgId m e := by
  intro e he view hview
  have hnot := List.all_eq_true.1 h e he
  rw [hview] at hnot
  cases hnot

def unpromisedTest (orgId : String) (s : SeatState) (e : SeatEvent) : Bool :=
  match countsFor s e with
  | none => true
  | some (o, ambient, maxMembers) =>
      !decide (o = orgId) || !hasSeatAvailable (countActiveMembers s ambient orgId) maxMembers ||
        leavesASeat s orgId maxMembers ambient

theorem unpromised_of_test {s : SeatState} {e : SeatEvent} (h : unpromisedTest orgId s e = true) :
    Unpromised orgId s e := by
  intro ambient maxMembers hcount hseat
  simpa [unpromisedTest, hcount, hseat] using h

/-- A request comes and its hook asks. -/
def asksToJoin (i : Nat) (userId : String) : List SeatEvent :=
  [.request .acceptInvitation "acme" userId "member", .hook i, .hook i]

/-- A transaction provisions a user, up to the lock. -/
def provisions (t : Nat) (userId : String) : List SeatEvent :=
  [.beginScim, .reconcile t "acme" userId true, .scim t, .scim t]

/-- Of five seats, an invitation and two directory users take three, their calls
interleaved. -/
def sharedRun : List SeatEvent :=
  asksToJoin 0 "cyd" ++ provisions 0 "dan" ++ [.scim 0, .scim 0] ++ provisions 1 "eve" ++
    [.create 0 "m3", .insert 0 "m4", .commit 0, .scim 1, .scim 1, .create 1 "m5", .commit 1]

theorem seat_cap_kept_shared :
    Meets seatStep (CommitsWithinCap "acme" 5) (twoMembers ⟨[.sso], some 5⟩) sharedRun ∧
      ∀ t, exec seatStep (twoMembers ⟨[.sso], some 5⟩) sharedRun = some t →
        seatsIn "acme" (twoMembers ⟨[.sso], some 5⟩).members ≤ 5 →
        seatsIn "acme" t.members ≤ 5 :=
  seat_cap_kept ⟨rfl, rfl⟩ rfl (keepsCap_of_test (by decide))
    (meets_of_passes (fun _ _ => unpromised_of_test) (by decide))

example : (exec seatStep (twoMembers ⟨[.sso], some 5⟩) sharedRun).map
    (fun t => seatsIn "acme" t.members) = some 5 := by decide +kernel

/-- On the free plan both hooks count two members of three. -/
def bothAsk : List SeatEvent := asksToJoin 0 "cyd" ++ asksToJoin 1 "dan" ++ [.insert 0 "m3"]

theorem last_seat_taken_twice :
    ¬ ∀ (s : SeatState) (orgId : String) (m : Nat) (es : List SeatEvent), Idle s →
      (s.plan orgId).maxMembers = some m → (∀ e ∈ es, KeepsCap orgId m e) →
      Meets seatStep (CommitsWithinCap orgId m) s es ∧
        ∀ t, exec seatStep s es = some t → seatsIn orgId s.members ≤ m →
          seatsIn orgId t.members ≤ m := by
  intro hall
  have hkept := (hall (twoMembers (ENTITLEMENTS .free)) "acme" 3 (bothAsk ++ [.insert 1 "m4"])
    ⟨rfl, rfl⟩ rfl (keepsCap_of_test (by decide))).2
  have hrun : (exec seatStep (twoMembers (ENTITLEMENTS .free))
      (bothAsk ++ [.insert 1 "m4"])).map (fun t => seatsIn "acme" t.members) = some 4 := by
    decide
  obtain ⟨t, ht, hfour⟩ := Option.map_eq_some_iff.1 hrun
  have hle := hkept t ht (by decide)
  rw [hfour] at hle
  exact absurd hle (by decide)

end CleanStack.Auth
