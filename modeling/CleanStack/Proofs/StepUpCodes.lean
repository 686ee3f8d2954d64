import CleanStack.Admin.StepUp
import CleanStack.Proofs.TotpReplay

/-!
# A code opens one step-up

A step-up is in force because an attempt was committed, and an attempt commits
with the acceptance of its code. The counters of a user's acceptances go up, so
no two attempts stand on one counter, in whatever sessions and however they
interleave. And since a session stays while an attempt records it, what is in
force is the time of a committed attempt of that very session.

The transactions of the attempts are told apart by their numbers, and
`TotpFrame` says what a step of one leaves to the others.
-/

namespace CleanStack.Admin

open CleanStack.Lib CleanStack.Auth

/-! ## What a step on the codes leaves alone -/

/-- Open transactions other than `own`, and what the calls are about. -/
structure TotpFrame (t t' : TotpState) (own : Option Nat) : Prop where
  others : ∀ j tx, some j ≠ own → t.openAt j = some tx → t'.openAt j = some tx
  calls : ∀ (n : Nat) (c : TotpCall), t.calls[n]? = some c → ∃ c', t'.calls[n]? = some c' ∧
    c'.transaction = c.transaction ∧ c'.userId = c.userId ∧ c'.readAt = c.readAt
  accepted : ∀ x ∈ t.accepted, x ∈ t'.accepted
  length : t.transactions.length ≤ t'.transactions.length

theorem TotpFrame.refl (t : TotpState) (own : Option Nat) : TotpFrame t t own :=
  ⟨fun _ _ _ h => h, fun _ c h => ⟨c, h, rfl, rfl, rfl⟩, fun _ h => h, le_rfl⟩

theorem TotpFrame.trans {t t' t'' : TotpState} {own : Option Nat} (h : TotpFrame t t' own)
    (h' : TotpFrame t' t'' own) : TotpFrame t t'' own where
  others j tx hj hopen := h'.others j tx hj (h.others j tx hj hopen)
  calls n c hc := by
    obtain ⟨c', hc', htx, huser, hread⟩ := h.calls n c hc
    obtain ⟨c'', hc'', htx', huser', hread'⟩ := h'.calls n c' hc'
    exact ⟨c'', hc'', htx'.trans htx, huser'.trans huser, hread'.trans hread⟩
  accepted x hx := h'.accepted x (h.accepted x hx)
  length := h.length.trans h'.length

section Frames

variable {Secret : Type} {codes : TotpCodes Secret} {t t' : TotpState}

theorem frame_begins (h : totpStep codes t .begins = some t') (own : Option Nat) :
    TotpFrame t t' own ∧ t'.transactions = t.transactions ++ [some ⟨[], []⟩] ∧
      t'.calls = t.calls := by
  cases h
  refine ⟨⟨fun j tx _ hopen => ?_, fun _ c hc => ⟨c, hc, rfl, rfl, rfl⟩, fun _ hx => hx, by simp⟩,
    rfl, rfl⟩
  rw [openAt_begins rfl, if_neg (lt_length_of_open hopen).ne]
  exact hopen

theorem frame_read {transaction : Option Nat} {rows : List TwoFactorRow} {userId code : String}
    {now : Int} (h : totpStep codes t (.read transaction rows userId code now) = some t')
    (own : Option Nat) : TotpFrame t t' own ∧ t'.transactions = t.transactions ∧
      ∃ phase, t'.calls = t.calls ++ [⟨transaction, userId, now, phase⟩] := by
  cases h
  refine ⟨⟨fun _ _ _ hopen => hopen, fun n c hc => ⟨c, ?_, rfl, rfl, rfl⟩, fun _ hx => hx, le_rfl⟩,
    rfl, _, rfl⟩
  exact (List.getElem?_append_left (List.getElem?_eq_some_iff.1 hc).1).trans hc

theorem frame_ended {i : Nat} {tx : TotpTransaction} (hopen : t.openAt i = some tx)
    (ht : t'.transactions = t.transactions.set i none) (hcalls : t'.calls = t.calls)
    (haccepted : ∀ x ∈ t.accepted, x ∈ t'.accepted) : TotpFrame t t' (some i) := by
  refine ⟨fun j tx' hj hother => ?_, fun n c hc => ⟨c, hcalls ▸ hc, rfl, rfl, rfl⟩, haccepted, ?_⟩
  · rw [openAt_set hopen ht, if_neg fun hji => hj (congrArg some hji)]
    exact hother
  · rw [ht, List.length_set]

theorem frame_rollback {i : Nat} (h : totpStep codes t (.rollback i) = some t') :
    TotpFrame t t' (some i) := by
  obtain ⟨tx, hopen, rfl⟩ := Option.map_eq_some_iff.1 h
  exact frame_ended hopen rfl rfl fun _ hx => hx

theorem frame_commit {i : Nat} {tx : TotpTransaction} (hopen : t.openAt i = some tx)
    (h : totpStep codes t (.commit i) = some t') :
    TotpFrame t t' (some i) ∧ t'.accepted = t.accepted ++ tx.writes := by
  obtain ⟨tx', hopen', rfl⟩ := Option.map_eq_some_iff.1 h
  obtain rfl := Option.some.inj (hopen.symm.trans hopen')
  exact ⟨frame_ended hopen rfl rfl fun _ hx => List.mem_append_left _ hx, rfl⟩

/-- The answer of a call. -/
theorem calls_answer {call : TotpCall} {k : Nat} (hcall : t.calls[k]? = some call)
    (accepts : Bool) (n : Nat) (c : TotpCall) (hc : t.calls[n]? = some c) :
    ∃ c', (t.answer k call accepts).calls[n]? = some c' ∧ c'.transaction = c.transaction ∧
      c'.userId = c.userId ∧ c'.readAt = c.readAt := by
  by_cases hn : n = k
  · subst hn
    obtain rfl := Option.some.inj (hcall.symm.trans hc)
    exact ⟨_, List.getElem?_set_self (List.getElem?_eq_some_iff.1 hc).1, rfl, rfl, rfl⟩
  · refine ⟨c, ?_, rfl, rfl, rfl⟩
    rw [TotpState.answer, List.getElem?_set_ne (Ne.symm hn)]
    exact hc

theorem outcomeOf_answer {call : TotpCall} {k : Nat} (hcall : t.calls[k]? = some call)
    (accepts : Bool) : outcomeOf (t.answer k call accepts) k =
      some (if accepts then .accepted else .replayed) := by
  rw [outcomeOf, TotpState.answer, List.getElem?_set_self (List.getElem?_eq_some_iff.1 hcall).1]
  rfl

/-- An upsert outside of any transaction. -/
theorem frame_upsert_alone {k : Nat} {call : TotpCall} (hcall : t.calls[k]? = some call)
    (hnone : call.transaction = none) (h : totpStep codes t (.upsert k) = some t')
    (own : Option Nat) : TotpFrame t t' own := by
  obtain ⟨call', hcall', h⟩ := Option.bind_eq_some_iff.1 h
  obtain rfl := Option.some.inj (hcall.symm.trans hcall')
  split at h
  · cases h
  · split at h
    · cases h
    · rw [hnone] at h
      dsimp only at h
      split at h
      · cases h
        exact ⟨fun _ _ _ hopen => hopen, calls_answer hcall _, fun _ hx =>
          List.mem_append_left _ hx, le_rfl⟩
      · cases h
        exact ⟨fun _ _ _ hopen => hopen, calls_answer hcall _, fun _ hx => hx, le_rfl⟩

/-- An upsert in a transaction that has written nothing yet. -/
theorem frame_upsert {k i : Nat} {call : TotpCall} {counter : Int} {locked : List String}
    (hcall : t.calls[k]? = some call) (hphase : call.phase = .matched counter)
    (hin : call.transaction = some i) (hopen : t.openAt i = some ⟨[], locked⟩)
    (h : totpStep codes t (.upsert k) = some t') : TotpFrame t t' (some i) ∧
      ∃ accepts : Bool, outcomeOf t' k = some (if accepts then .accepted else .replayed) ∧
        ∃ locked', t'.openAt i = some
          ⟨if accepts then [⟨call.userId, counter, call.readAt⟩] else [], locked'⟩ := by
  obtain ⟨call', hcall', h⟩ := Option.bind_eq_some_iff.1 h
  obtain rfl := Option.some.inj (hcall.symm.trans hcall')
  rw [hphase] at h
  dsimp only at h
  split at h
  · cases h
  · rw [hin] at h
    dsimp only at h
    rw [hopen, Option.map_some] at h
    obtain rfl := Option.some.inj h
    refine ⟨⟨fun j tx hj hother => ?_, calls_answer hcall _, fun _ hx => hx, ?_⟩, _,
      outcomeOf_answer hcall _, call.userId :: locked, ?_⟩
    · rw [openAt_set hopen rfl, if_neg fun hji => hj (congrArg some hji)]
      exact hother
    · exact (List.length_set ..).symm.le
    · rw [openAt_set hopen rfl, if_pos rfl]
      split <;> rfl

end Frames

/-! ## What stands behind an attempt -/

/-- What the transaction of an attempt has written. -/
def Tracked (t : TotpState) (a : StepUpAttempt) : Prop :=
  match a.phase with
  | .matched => (∃ locked, t.openAt a.transaction = some ⟨[], locked⟩) ∧
      ∃ c, t.calls[a.call]? = some c ∧ c.transaction = some a.transaction ∧
        c.userId = a.userId ∧ c.readAt = a.readAt
  | .accepted counter =>
      ∃ locked, t.openAt a.transaction = some ⟨[⟨a.userId, counter, a.readAt⟩], locked⟩
  | .recorded counter _ =>
      ∃ locked, t.openAt a.transaction = some ⟨[⟨a.userId, counter, a.readAt⟩], locked⟩
  | .verified _ _ => True
  | .refused _ => True

theorem Tracked.frame {t t' : TotpState} {own : Option Nat} (h : TotpFrame t t' own)
    {a : StepUpAttempt} (hother : some a.transaction ≠ own) (ha : Tracked t a) : Tracked t' a := by
  unfold Tracked at ha ⊢
  split at ha
  · obtain ⟨⟨locked, hopen⟩, c, hc, htx, huser, hread⟩ := ha
    obtain ⟨c', hc', htx', huser', hread'⟩ := h.calls _ c hc
    exact ⟨⟨locked, h.others _ _ hother hopen⟩, c', hc', htx'.trans htx, huser'.trans huser,
      hread'.trans hread⟩
  · obtain ⟨locked, hopen⟩ := ha
    exact ⟨locked, h.others _ _ hother hopen⟩
  · obtain ⟨locked, hopen⟩ := ha
    exact ⟨locked, h.others _ _ hother hopen⟩
  · trivial
  · trivial

/-- An attempt that has not got as far as the session. -/
def Early (a : StepUpAttempt) : Prop :=
  (∀ counter verifiedAt, a.phase ≠ .recorded counter verifiedAt) ∧
    ∀ counter verifiedAt, a.phase ≠ .verified counter verifiedAt

def StepUpState.SameRest (s s' : StepUpState) : Prop :=
  s'.sessions = s.sessions ∧ s'.stepUps = s.stepUps ∧ s'.verified = s.verified

/-- What a step does. -/
inductive StepUpMoves (ttlSeconds : Int) (s s' : StepUpState) : Prop
  | outside (frame : TotpFrame s.totp s'.totp none) (attempts : s'.attempts = s.attempts)
      (rest : s.SameRest s')
  | begun (a : StepUpAttempt) (frame : TotpFrame s.totp s'.totp none)
      (transaction : a.transaction = s.totp.transactions.length)
      (grown : s.totp.transactions.length < s'.totp.transactions.length)
      (holds : Tracked s'.totp a) (early : Early a) (attempts : s'.attempts = s.attempts ++ [a])
      (rest : s.SameRest s')
  | moved (k : Nat) (a : StepUpAttempt) (phase : StepUpPhase) (found : s.attempts[k]? = some a)
      (running : ∀ counter verifiedAt, a.phase ≠ .verified counter verifiedAt)
      (frame : TotpFrame s.totp s'.totp (some a.transaction))
      (holds : Tracked s'.totp { a with phase })
      (unverified : ∀ counter verifiedAt, phase ≠ .verified counter verifiedAt)
      (live : ∀ counter verifiedAt, phase = .recorded counter verifiedAt →
        a.sessionId ∈ s.sessions)
      (attempts : s'.attempts = s.attempts.set k { a with phase }) (rest : s.SameRest s')
  | committed (k : Nat) (a : StepUpAttempt) (counter verifiedAt : Int)
      (found : s.attempts[k]? = some a) (held : a.phase = .recorded counter verifiedAt)
      (frame : TotpFrame s.totp s'.totp (some a.transaction))
      (accepted : s'.totp.accepted = s.totp.accepted ++ [⟨a.userId, counter, a.readAt⟩])
      (next : s' = { s with
        totp := s'.totp
        attempts := s.attempts.set k { a with phase := .verified counter verifiedAt }
        stepUps := recordStepUp s.stepUps a.sessionId verifiedAt
        verified := s.verified ++ [⟨a.userId, expiryOf ttlSeconds verifiedAt, a.ip⟩] })
  | sessionBegun (sessionId : String)
      (next : s' = { s with sessions := sessionId :: s.sessions })
  | sessionEnded (sessionId : String) (free : ¬ s.attempts.any (recordsSession sessionId) = true)
      (next : s' = { s with
        sessions := s.sessions.filter fun id => id ≠ sessionId
        stepUps := s.stepUps.delete fun r => r.sessionId = sessionId })

section Steps

variable {Secret : Type} {codes : TotpCodes Secret} {ttlSeconds : Int} {s s' : StepUpState}

theorem totp_of_refuse {k : Nat} {a : StepUpAttempt} {error : Option AppError}
    (h : s.refuse codes k a error = some s') : TotpFrame s.totp s'.totp (some a.transaction) ∧
      s'.attempts = s.attempts.set k { a with phase := .refused error } ∧ s.SameRest s' := by
  obtain ⟨totp, htotp, rfl⟩ := Option.map_eq_some_iff.1 h
  exact ⟨frame_rollback htotp, rfl, rfl, rfl, rfl⟩

theorem refused_moves (t : StepUpState) {k : Nat} {a : StepUpAttempt} {error : Option AppError}
    (found : s.attempts[k]? = some a)
    (running : ∀ counter verifiedAt, a.phase ≠ .verified counter verifiedAt)
    (frame : TotpFrame s.totp t.totp (some a.transaction)) (hattempts : t.attempts = s.attempts)
    (hrest : s.SameRest t) (h : t.refuse codes k a error = some s') :
    StepUpMoves ttlSeconds s s' := by
  obtain ⟨hframe, hset, hsame⟩ := totp_of_refuse h
  refine .moved k a (.refused error) found running (frame.trans hframe) trivial
    (fun _ _ => by nofun) (fun _ _ => by nofun) (hattempts ▸ hset) ?_
  exact ⟨hsame.1.trans hrest.1, hsame.2.1.trans hrest.2.1, hsame.2.2.trans hrest.2.2⟩

/-- What is open before is not the transaction that begins. -/
theorem frame_new {t t' : TotpState} (h : TotpFrame t t' (some t.transactions.length)) :
    TotpFrame t t' none where
  others j tx _ hopen := by
    refine h.others j tx (fun hj => ?_) hopen
    exact (lt_length_of_open hopen).ne (Option.some.inj hj)
  calls := h.calls
  accepted := h.accepted
  length := h.length

theorem begun_moves {userId sessionId code : String} {ip : Option String}
    {rows : List TwoFactorRow} {now : Int}
    (h : stepUpBegin codes s userId sessionId code ip rows now = some s') :
    StepUpMoves ttlSeconds s s' := by
  rw [stepUpBegin] at h
  obtain ⟨begun, hbegun, h⟩ := Option.bind_eq_some_iff.1 h
  obtain ⟨totp, hread, h⟩ := Option.bind_eq_some_iff.1 h
  obtain ⟨hframe, htxs, hcalls⟩ := frame_begins hbegun (some s.totp.transactions.length)
  obtain ⟨hframe', htxs', phase, hcalls'⟩ := frame_read hread (some s.totp.transactions.length)
  have hlength : totp.transactions.length = s.totp.transactions.length + 1 := by
    rw [htxs', htxs, List.length_append]
    rfl
  have hopen : totp.openAt s.totp.transactions.length = some ⟨[], []⟩ :=
    (openAt_begins (htxs'.trans htxs) _).trans (if_pos rfl)
  have hcall : totp.calls[s.totp.calls.length]? =
      some ⟨some s.totp.transactions.length, userId, now, phase⟩ := by
    rw [hcalls', hcalls, List.getElem?_concat_length]
  split at h
  · obtain rfl := Option.some.inj h
    exact .begun ⟨userId, sessionId, ip, now, s.totp.transactions.length, s.totp.calls.length,
      .matched⟩ (frame_new (hframe.trans hframe')) rfl (by rw [hlength]; omega)
      ⟨⟨[], hopen⟩, _, hcall, rfl, rfl, rfl⟩ ⟨fun _ _ => by nofun, fun _ _ => by nofun⟩ rfl
      ⟨rfl, rfl, rfl⟩
  · next error _ =>
      obtain ⟨hframe'', hset, hrest⟩ := totp_of_refuse h
      have hgrown := hframe''.length
      refine .begun ⟨userId, sessionId, ip, now, s.totp.transactions.length, s.totp.calls.length,
        .refused (some error)⟩ (frame_new (hframe.trans (hframe'.trans hframe''))) rfl ?_ trivial
        ⟨fun _ _ => by nofun, fun _ _ => by nofun⟩ ?_ hrest
      · have hle : totp.transactions.length ≤ s'.totp.transactions.length := hgrown
        omega
      · rw [hset, List.set_append_right _ _ le_rfl, Nat.sub_self]
        rfl

theorem consumed_moves {k : Nat} {a : StepUpAttempt} (found : s.attempts[k]? = some a)
    (hmatched : a.phase = .matched) (hholds : Tracked s.totp a) {counter : Int}
    (hcounter : counterOf s.totp a.call = some counter) {totp : TotpState}
    (htotp : totpStep codes s.totp (.upsert a.call) = some totp)
    (h : (match (outcomeOf totp a.call).bind stepUpRefusal with
      | none => some (({ s with totp } : StepUpState).setPhase k a (.accepted counter))
      | some error => ({ s with totp } : StepUpState).refuse codes k a (some error)) = some s') :
    StepUpMoves ttlSeconds s s' := by
  rw [Tracked, hmatched] at hholds
  obtain ⟨⟨locked, hopen⟩, c, hc, htx, huser, hread⟩ := hholds
  have hphase : c.phase = .matched counter := by
    rw [counterOf, hc, Option.bind_some] at hcounter
    split at hcounter
    · next hphase => rw [hphase, Option.some.inj hcounter]
    · cases hcounter
  have hrunning : ∀ counter verifiedAt, a.phase ≠ .verified counter verifiedAt := by
    rw [hmatched]
    exact fun _ _ => by nofun
  obtain ⟨hframe, accepts, houtcome, locked', hopen'⟩ := frame_upsert hc hphase htx hopen htotp
  rw [houtcome, Option.bind_some] at h
  cases accepts with
  | true =>
      obtain rfl := Option.some.inj h
      rw [if_pos rfl, huser, hread] at hopen'
      exact .moved k a (.accepted counter) found hrunning hframe ⟨locked', hopen'⟩
        (fun _ _ => by nofun) (fun _ _ => by nofun) rfl ⟨rfl, rfl, rfl⟩
  | false =>
      have hrefused : ({ s with totp } : StepUpState).refuse codes k a (some stepUpReplayed) =
          some s' := h
      exact refused_moves { s with totp } found hrunning hframe rfl ⟨rfl, rfl, rfl⟩ hrefused

theorem stepUp_moves (hholds : ∀ a ∈ s.attempts, Tracked s.totp a) {e : StepUpEvent}
    (h : stepUpStep codes ttlSeconds s e = some s') : StepUpMoves ttlSeconds s s' := by
  cases e with
  | attempt userId sessionId code ip rows now => exact begun_moves h
  | consume k =>
      obtain ⟨a, ha, h⟩ := Option.bind_eq_some_iff.1 h
      split at h
      · next counter hmatched hcounter =>
          obtain ⟨totp, htotp, h⟩ := Option.bind_eq_some_iff.1 h
          exact consumed_moves ha hmatched (hholds a (List.mem_of_getElem? ha)) hcounter htotp h
      · cases h
  | record k verifiedAt =>
      obtain ⟨a, ha, h⟩ := Option.bind_eq_some_iff.1 h
      split at h
      · next counter hphase =>
          have hrunning : ∀ counter verifiedAt, a.phase ≠ .verified counter verifiedAt := by
            rw [hphase]
            exact fun _ _ => by nofun
          split at h
          · exact refused_moves s ha hrunning (TotpFrame.refl _ _) rfl ⟨rfl, rfl, rfl⟩ h
          · next hlive =>
              split at h
              · cases h
              · cases h
                have hmem : a.sessionId ∈ s.sessions := by simpa using hlive
                have hold := hholds a (List.mem_of_getElem? ha)
                rw [Tracked, hphase] at hold
                exact .moved k a (.recorded counter verifiedAt) ha hrunning (TotpFrame.refl _ _)
                  hold (fun _ _ => by nofun) (fun _ _ _ => hmem) rfl ⟨rfl, rfl, rfl⟩
      · cases h
  | commit k =>
      obtain ⟨a, ha, h⟩ := Option.bind_eq_some_iff.1 h
      split at h
      · next counter verifiedAt hphase =>
          obtain ⟨totp, htotp, rfl⟩ := Option.map_eq_some_iff.1 h
          have hold := hholds a (List.mem_of_getElem? ha)
          rw [Tracked, hphase] at hold
          obtain ⟨locked, hopen⟩ := hold
          obtain ⟨hframe, haccepted⟩ := frame_commit hopen htotp
          exact .committed k a counter verifiedAt ha hphase hframe haccepted rfl
      · cases h
  | fails k =>
      obtain ⟨a, ha, h⟩ := Option.bind_eq_some_iff.1 h
      split at h
      · cases h
      · cases h
      · next hrunning _ =>
          exact refused_moves s ha hrunning (TotpFrame.refl _ _) rfl ⟨rfl, rfl, rfl⟩ h
  | otherRead rows userId code now =>
      rw [stepUpStep] at h
      obtain ⟨totp, htotp, rfl⟩ := Option.map_eq_some_iff.1 h
      exact .outside (frame_read htotp none).1 rfl ⟨rfl, rfl, rfl⟩
  | otherUpsert call =>
      obtain ⟨c, hc, h⟩ := Option.bind_eq_some_iff.1 h
      split at h
      · next hnone =>
          obtain ⟨totp, htotp, rfl⟩ := Option.map_eq_some_iff.1 h
          exact .outside (frame_upsert_alone hc hnone htotp none) rfl ⟨rfl, rfl, rfl⟩
      · cases h
  | sessionBegins sessionId =>
      simp only [stepUpStep] at h
      split at h
      · cases h
      · cases h
        exact .sessionBegun sessionId rfl
  | sessionEnds sessionId =>
      simp only [stepUpStep] at h
      split at h
      · cases h
      · next hfree =>
          cases h
          exact .sessionEnded sessionId hfree rfl

end Steps

/-! ## What is in force -/

structure StepUps (ttlSeconds : Int) (s : StepUpState) : Prop where
  ratchets : Ratchets s.totp
  below : ∀ a ∈ s.attempts, a.transaction < s.totp.transactions.length
  apart : ∀ (k j : Nat) (a b : StepUpAttempt), s.attempts[k]? = some a → s.attempts[j]? = some b →
    a.transaction = b.transaction → k = j
  holds : ∀ a ∈ s.attempts, Tracked s.totp a
  live : ∀ a ∈ s.attempts, ∀ counter verifiedAt, a.phase = .recorded counter verifiedAt →
    a.sessionId ∈ s.sessions
  verified : ∀ a ∈ s.attempts, ∀ counter verifiedAt, a.phase = .verified counter verifiedAt →
    ⟨a.userId, counter, a.readAt⟩ ∈ s.totp.accepted ∧
      ⟨a.userId, expiryOf ttlSeconds verifiedAt, a.ip⟩ ∈ s.verified
  once : ∀ (k j : Nat) (a b : StepUpAttempt) (counter verifiedAt verifiedAt' : Int),
    s.attempts[k]? = some a → s.attempts[j]? = some b → a.userId = b.userId →
      a.phase = .verified counter verifiedAt → b.phase = .verified counter verifiedAt' → k = j
  rows : ∀ sessionId r, s.stepUps.find? sessionId = some r → sessionId ∈ s.sessions ∧
    ∃ (k : Nat) (a : StepUpAttempt) (counter : Int), s.attempts[k]? = some a ∧
      a.sessionId = sessionId ∧
      a.phase = .verified counter r.verifiedAt

theorem counter_mem {accepted : List TotpAcceptance} {userId : String} {counter readAt : Int}
    (h : ⟨userId, counter, readAt⟩ ∈ accepted) : counter ∈ countersOf userId accepted :=
  List.mem_map.2 ⟨⟨userId, counter, readAt⟩,
    List.mem_filter.2 ⟨h, decide_eq_true (Eq.refl userId)⟩, rfl⟩

section Invariant

variable {ttlSeconds : Int} {s s' : StepUpState}

/-- A row's attempt is still there. -/
theorem rows_kept (hs : StepUps ttlSeconds s)
    (hattempts : ∀ (k : Nat) (a : StepUpAttempt) (counter verifiedAt : Int),
      s.attempts[k]? = some a → a.phase = .verified counter verifiedAt →
        s'.attempts[k]? = some a) (sessions : s'.sessions = s.sessions)
    (stepUps : s'.stepUps = s.stepUps) :
    ∀ sessionId r, s'.stepUps.find? sessionId = some r → sessionId ∈ s'.sessions ∧
      ∃ (k : Nat) (a : StepUpAttempt) (counter : Int), s'.attempts[k]? = some a ∧
        a.sessionId = sessionId ∧ a.phase = .verified counter r.verifiedAt := by
  intro sessionId r hr
  rw [stepUps] at hr
  obtain ⟨hlive, k, a, counter, ha, hid, hphase⟩ := hs.rows sessionId r hr
  exact ⟨sessions ▸ hlive, k, a, counter, hattempts k a counter _ ha hphase, hid, hphase⟩

theorem stepUps_outside (hs : StepUps ttlSeconds s) (hratchets : Ratchets s'.totp)
    (frame : TotpFrame s.totp s'.totp none) (attempts : s'.attempts = s.attempts)
    (rest : s.SameRest s') : StepUps ttlSeconds s' := by
  obtain ⟨sessions, stepUps, verified⟩ := rest
  refine ⟨hratchets, ?_, ?_, ?_, ?_, ?_, ?_, rows_kept hs (fun k a _ _ ha _ => attempts ▸ ha)
    sessions stepUps⟩
  · rw [attempts]
    exact fun a ha => (hs.below a ha).trans_le frame.length
  · rw [attempts]
    exact hs.apart
  · rw [attempts]
    exact fun a ha => (hs.holds a ha).frame frame (by nofun)
  · rw [attempts, sessions]
    exact hs.live
  · rw [attempts, verified]
    exact fun a ha counter verifiedAt hphase =>
      ⟨frame.accepted _ (hs.verified a ha counter verifiedAt hphase).1,
        (hs.verified a ha counter verifiedAt hphase).2⟩
  · rw [attempts]
    exact hs.once

theorem stepUps_begun (hs : StepUps ttlSeconds s) (hratchets : Ratchets s'.totp)
    {a : StepUpAttempt} (frame : TotpFrame s.totp s'.totp none)
    (transaction : a.transaction = s.totp.transactions.length)
    (grown : s.totp.transactions.length < s'.totp.transactions.length)
    (holds : Tracked s'.totp a) (early : Early a) (attempts : s'.attempts = s.attempts ++ [a])
    (rest : s.SameRest s') : StepUps ttlSeconds s' := by
  obtain ⟨sessions, stepUps, verified⟩ := rest
  have hmem : ∀ b ∈ s'.attempts, b ∈ s.attempts ∨ b = a := by
    intro b hb
    rw [attempts, List.mem_append, List.mem_singleton] at hb
    exact hb
  have hget : ∀ (k : Nat) (b : StepUpAttempt), s'.attempts[k]? = some b →
      s.attempts[k]? = some b ∨ k = s.attempts.length ∧ b = a := by
    intro k b hb
    rw [attempts, List.getElem?_append] at hb
    split at hb
    · exact .inl hb
    · next hlt =>
        obtain ⟨hk, hb⟩ := List.getElem?_eq_some_iff.1 hb
        rw [List.length_singleton] at hk
        exact .inr ⟨by omega, by simpa using hb.symm⟩
  have hnew : ∀ (k : Nat) (b : StepUpAttempt), s.attempts[k]? = some b →
      b.transaction ≠ a.transaction := fun k b hb =>
    transaction ▸ (hs.below b (List.mem_of_getElem? hb)).ne
  refine ⟨hratchets, fun b hb => ?_, fun k j b c hb hc hsame => ?_, fun b hb => ?_,
    fun b hb counter verifiedAt hphase => ?_, fun b hb counter verifiedAt hphase => ?_,
    fun k j b c counter v v' hb hc huser hphase hphase' => ?_,
    rows_kept hs (fun k b _ _ hb _ => ?_) sessions stepUps⟩
  · rcases hmem b hb with hold | rfl
    · exact (hs.below b hold).trans grown
    · exact transaction ▸ grown
  · rcases hget k b hb with hb | ⟨rfl, rfl⟩
    · rcases hget j c hc with hc | ⟨rfl, rfl⟩
      · exact hs.apart k j b c hb hc hsame
      · exact absurd hsame (hnew k b hb)
    · rcases hget j c hc with hc | ⟨rfl, -⟩
      · exact absurd hsame.symm (hnew j c hc)
      · rfl
  · rcases hmem b hb with hold | rfl
    · exact (hs.holds b hold).frame frame (by nofun)
    · exact holds
  · rw [sessions]
    rcases hmem b hb with hold | rfl
    · exact hs.live b hold counter verifiedAt hphase
    · exact absurd hphase (early.1 counter verifiedAt)
  · rw [verified]
    rcases hmem b hb with hold | rfl
    · obtain ⟨haccepted, hevent⟩ := hs.verified b hold counter verifiedAt hphase
      exact ⟨frame.accepted _ haccepted, hevent⟩
    · exact absurd hphase (early.2 counter verifiedAt)
  · rcases hget k b hb with hb | ⟨-, rfl⟩
    · rcases hget j c hc with hc | ⟨-, rfl⟩
      · exact hs.once k j b c counter v v' hb hc huser hphase hphase'
      · exact absurd hphase' (early.2 counter v')
    · exact absurd hphase (early.2 counter v)
  · rw [attempts]
    exact (List.getElem?_append_left (List.getElem?_eq_some_iff.1 hb).1).trans hb

/-- One attempt has moved. -/
theorem apart_set (hs : StepUps ttlSeconds s) {k : Nat} {a : StepUpAttempt}
    (found : s.attempts[k]? = some a) (phase : StepUpPhase) (i j : Nat) (b c : StepUpAttempt)
    (hb : (s.attempts.set k { a with phase })[i]? = some b)
    (hc : (s.attempts.set k { a with phase })[j]? = some c)
    (hsame : b.transaction = c.transaction) : i = j := by
  rcases getElem?_set_cases hb with ⟨rfl, rfl⟩ | ⟨-, hb⟩
  · rcases getElem?_set_cases hc with ⟨rfl, -⟩ | ⟨-, hc⟩
    · rfl
    · exact hs.apart i j a c found hc hsame
  · rcases getElem?_set_cases hc with ⟨hj, rfl⟩ | ⟨-, hc⟩
    · rw [hj]
      exact hs.apart i k b a hb found hsame
    · exact hs.apart i j b c hb hc hsame

theorem holds_set (hs : StepUps ttlSeconds s) {k : Nat} {a : StepUpAttempt}
    (found : s.attempts[k]? = some a) {phase : StepUpPhase}
    (frame : TotpFrame s.totp s'.totp (some a.transaction))
    (holds : Tracked s'.totp { a with phase }) :
    ∀ b ∈ s.attempts.set k { a with phase }, Tracked s'.totp b := by
  intro b hb
  obtain ⟨j, hj⟩ := List.getElem?_of_mem hb
  rcases getElem?_set_cases hj with ⟨-, rfl⟩ | ⟨hne, hj⟩
  · exact holds
  · refine (hs.holds b (List.mem_of_getElem? hj)).frame frame fun hsame => hne ?_
    exact hs.apart j k b a hj found (Option.some.inj hsame)

theorem below_set (hs : StepUps ttlSeconds s) {k : Nat} {a : StepUpAttempt}
    (found : s.attempts[k]? = some a) {phase : StepUpPhase}
    (hlength : s.totp.transactions.length ≤ s'.totp.transactions.length) :
    ∀ b ∈ s.attempts.set k { a with phase },
      b.transaction < s'.totp.transactions.length := by
  intro b hb
  rcases List.mem_or_eq_of_mem_set hb with hold | rfl
  · exact (hs.below b hold).trans_le hlength
  · exact (hs.below a (List.mem_of_getElem? found)).trans_le hlength

theorem live_set (hs : StepUps ttlSeconds s) {k : Nat} {a : StepUpAttempt} {phase : StepUpPhase}
    (live : ∀ counter verifiedAt, phase = .recorded counter verifiedAt → a.sessionId ∈ s.sessions) :
    ∀ b ∈ s.attempts.set k { a with phase }, ∀ counter verifiedAt,
      b.phase = .recorded counter verifiedAt → b.sessionId ∈ s.sessions := by
  intro b hb counter verifiedAt hphase
  rcases List.mem_or_eq_of_mem_set hb with hold | rfl
  · exact hs.live b hold counter verifiedAt hphase
  · exact live counter verifiedAt hphase

/-- An attempt in another phase is another attempt. -/
theorem attempt_kept {k j : Nat} {a b : StepUpAttempt} (found : s.attempts[k]? = some a)
    (hb : s.attempts[j]? = some b) (hphase : b.phase ≠ a.phase) (moved : StepUpAttempt) :
    (s.attempts.set k moved)[j]? = some b := by
  have hne : k ≠ j := by
    rintro rfl
    obtain rfl := Option.some.inj (hb.symm.trans found)
    exact hphase rfl
  rw [List.getElem?_set_ne hne]
  exact hb

theorem stepUps_moved (hs : StepUps ttlSeconds s) (hratchets : Ratchets s'.totp) {k : Nat}
    {a : StepUpAttempt} {phase : StepUpPhase} (found : s.attempts[k]? = some a)
    (running : ∀ counter verifiedAt, a.phase ≠ .verified counter verifiedAt)
    (frame : TotpFrame s.totp s'.totp (some a.transaction))
    (holds : Tracked s'.totp { a with phase })
    (unverified : ∀ counter verifiedAt, phase ≠ .verified counter verifiedAt)
    (live : ∀ counter verifiedAt, phase = .recorded counter verifiedAt → a.sessionId ∈ s.sessions)
    (attempts : s'.attempts = s.attempts.set k { a with phase }) (rest : s.SameRest s') :
    StepUps ttlSeconds s' := by
  obtain ⟨sessions, stepUps, verified⟩ := rest
  refine ⟨hratchets, ?_, ?_, ?_, ?_, fun b hb counter verifiedAt hphase => ?_,
    fun i j b c counter v v' hb hc huser hphase hphase' => ?_,
    rows_kept hs (fun j b counter verifiedAt hb hphase => ?_) sessions stepUps⟩
  · rw [attempts]
    exact below_set hs found frame.length
  · rw [attempts]
    exact apart_set hs found phase
  · rw [attempts]
    exact holds_set hs found frame holds
  · rw [attempts, sessions]
    exact live_set hs live
  · rw [attempts] at hb
    rw [verified]
    rcases List.mem_or_eq_of_mem_set hb with hold | rfl
    · obtain ⟨haccepted, hevent⟩ := hs.verified b hold counter verifiedAt hphase
      exact ⟨frame.accepted _ haccepted, hevent⟩
    · exact absurd hphase (unverified counter verifiedAt)
  · rw [attempts] at hb hc
    rcases getElem?_set_cases hb with ⟨-, rfl⟩ | ⟨-, hb⟩
    · exact absurd hphase (unverified counter v)
    · rcases getElem?_set_cases hc with ⟨-, rfl⟩ | ⟨-, hc⟩
      · exact absurd hphase' (unverified counter v')
      · exact hs.once i j b c counter v v' hb hc huser hphase hphase'
  · rw [attempts]
    refine attempt_kept found hb (fun heq => ?_) _
    exact running counter verifiedAt (heq.symm.trans hphase)

theorem stepUps_committed (hs : StepUps ttlSeconds s) {totp : TotpState}
    (hratchets : Ratchets totp) {k : Nat} {a : StepUpAttempt} {counter verifiedAt : Int}
    (found : s.attempts[k]? = some a) (held : a.phase = .recorded counter verifiedAt)
    (frame : TotpFrame s.totp totp (some a.transaction))
    (accepted : totp.accepted = s.totp.accepted ++ [⟨a.userId, counter, a.readAt⟩]) :
    StepUps ttlSeconds { s with
      totp
      attempts := s.attempts.set k { a with phase := .verified counter verifiedAt }
      stepUps := recordStepUp s.stepUps a.sessionId verifiedAt
      verified := s.verified ++ [⟨a.userId, expiryOf ttlSeconds verifiedAt, a.ip⟩] } := by
  -- the counter is above whatever was accepted for the user before
  have hfresh : ∀ b ∈ s.attempts, ∀ v, b.userId = a.userId → b.phase ≠ .verified counter v := by
    intro b hb v huser hphase
    have hbefore := counter_mem (hs.verified b hb counter v hphase).1
    have hrising := (hratchets.cell a.userId).rising
    rw [accepted, countersOf_append, List.pairwise_append] at hrising
    rw [huser] at hbefore
    exact lt_irrefl counter (hrising.2.2 counter hbefore counter
      (counter_mem List.mem_cons_self))
  have hbelow := @below_set ttlSeconds s { s with totp } hs k a found
    (.verified counter verifiedAt) frame.length
  have hholds := @holds_set ttlSeconds s { s with totp } hs k a found
    (.verified counter verifiedAt) frame trivial
  refine ⟨hratchets, hbelow, apart_set hs found _, hholds,
    live_set hs (fun c v hphase => by cases hphase), fun b hb c v hphase => ?_,
    fun i j b b' c v v' hb hb' huser hphase hphase' => ?_, fun sessionId r hr => ?_⟩
  · rcases List.mem_or_eq_of_mem_set hb with hold | rfl
    · obtain ⟨haccepted, hevent⟩ := hs.verified b hold c v hphase
      exact ⟨frame.accepted _ haccepted, List.mem_append_left _ hevent⟩
    · obtain ⟨rfl, rfl⟩ := StepUpPhase.verified.inj hphase
      refine ⟨?_, List.mem_append_right _ List.mem_cons_self⟩
      show _ ∈ totp.accepted
      rw [accepted]
      exact List.mem_append_right _ List.mem_cons_self
  · rcases getElem?_set_cases hb with ⟨rfl, rfl⟩ | ⟨-, hb⟩
    · rcases getElem?_set_cases hb' with ⟨rfl, -⟩ | ⟨-, hb'⟩
      · rfl
      · obtain ⟨rfl, rfl⟩ := StepUpPhase.verified.inj hphase
        exact absurd hphase' (hfresh b' (List.mem_of_getElem? hb') v' huser.symm)
    · rcases getElem?_set_cases hb' with ⟨-, rfl⟩ | ⟨-, hb'⟩
      · obtain ⟨rfl, rfl⟩ := StepUpPhase.verified.inj hphase'
        exact absurd hphase (hfresh b (List.mem_of_getElem? hb) v huser)
      · exact hs.once i j b b' c v v' hb hb' huser hphase hphase'
  · have hlive := hs.live a (List.mem_of_getElem? found) counter verifiedAt held
    by_cases hid : a.sessionId = sessionId
    · have hrow : r.verifiedAt = verifiedAt := by
        rw [recordStepUp, Table.find?_upsert_of_key hid] at hr
        obtain rfl := Option.some.inj hr
        cases s.stepUps.find? sessionId <;> rfl
      refine ⟨hid ▸ hlive, k, _, counter,
        List.getElem?_set_self (List.getElem?_eq_some_iff.1 found).1, hid, ?_⟩
      rw [hrow]
    · rw [recordStepUp, Table.find?_upsert_of_ne hid] at hr
      obtain ⟨hmem, j, b, c, hb, hsession, hphase⟩ := hs.rows sessionId r hr
      have hother : b.phase ≠ a.phase := by
        rw [hphase, held]
        intro heq
        cases heq
      exact ⟨hmem, j, b, c, attempt_kept found hb hother _, hsession, hphase⟩

theorem stepUps_ended (hs : StepUps ttlSeconds s) {sessionId : String}
    (free : ¬ s.attempts.any (recordsSession sessionId) = true) :
    StepUps ttlSeconds { s with
      sessions := s.sessions.filter fun id => id ≠ sessionId
      stepUps := s.stepUps.delete fun r => r.sessionId = sessionId } := by
  refine ⟨hs.ratchets, hs.below, hs.apart, hs.holds, fun a ha counter verifiedAt hphase => ?_,
    hs.verified, hs.once, fun id r hr => ?_⟩
  · refine List.mem_filter.2 ⟨hs.live a ha counter verifiedAt hphase, decide_eq_true fun hid => ?_⟩
    refine free (List.any_eq_true.2 ⟨a, ha, ?_⟩)
    rw [recordsSession, hphase]
    exact decide_eq_true hid
  · rw [Table.find?_delete, Option.filter_eq_some_iff] at hr
    obtain ⟨hr, hother⟩ := hr
    have hkey : r.sessionId = id := (Table.find?_eq_some.1 hr).2
    obtain ⟨hlive, hattempt⟩ := hs.rows id r hr
    refine ⟨List.mem_filter.2 ⟨hlive, decide_eq_true fun hid => ?_⟩, hattempt⟩
    rw [hkey, hid] at hother
    simp at hother

end Invariant

section Runs

variable {Secret : Type} {codes : TotpCodes Secret} {ttlSeconds : Int} {s s' : StepUpState}
  {es : List StepUpEvent}

/-- The codes take one of their own steps, or two, or none. -/
theorem ratchets_step (hs : Ratchets s.totp) {e : StepUpEvent}
    (h : stepUpStep codes ttlSeconds s e = some s') : Ratchets s'.totp := by
  have hrefuse : ∀ {t : StepUpState} {k a error}, Ratchets t.totp →
      t.refuse codes k a error = some s' → Ratchets s'.totp := by
    intro t k a error ht hrefused
    obtain ⟨totp, htotp, rfl⟩ := Option.map_eq_some_iff.1 hrefused
    exact ht.step htotp
  cases e with
  | attempt userId sessionId code ip rows now =>
      rw [stepUpStep, stepUpBegin] at h
      obtain ⟨begun, hbegun, h⟩ := Option.bind_eq_some_iff.1 h
      obtain ⟨totp, hread, h⟩ := Option.bind_eq_some_iff.1 h
      have hratchets : Ratchets totp := (hs.step hbegun).step hread
      split at h
      · cases h
        exact hratchets
      · exact hrefuse (t := { s with totp, attempts := _ }) hratchets h
  | consume k =>
      obtain ⟨a, -, h⟩ := Option.bind_eq_some_iff.1 h
      split at h
      · obtain ⟨totp, htotp, h⟩ := Option.bind_eq_some_iff.1 h
        have hratchets : Ratchets totp := hs.step htotp
        dsimp only at h
        split at h
        · cases h
          exact hratchets
        · exact hrefuse (t := { s with totp }) hratchets h
      · cases h
  | record k verifiedAt =>
      obtain ⟨a, -, h⟩ := Option.bind_eq_some_iff.1 h
      split at h
      · split at h
        · exact hrefuse hs h
        · split at h
          · cases h
          · cases h
            exact hs
      · cases h
  | commit k =>
      obtain ⟨a, -, h⟩ := Option.bind_eq_some_iff.1 h
      split at h
      · obtain ⟨totp, htotp, rfl⟩ := Option.map_eq_some_iff.1 h
        exact hs.step htotp
      · cases h
  | fails k =>
      obtain ⟨a, -, h⟩ := Option.bind_eq_some_iff.1 h
      split at h
      · cases h
      · cases h
      · exact hrefuse hs h
  | otherRead rows userId code now =>
      rw [stepUpStep] at h
      obtain ⟨totp, htotp, rfl⟩ := Option.map_eq_some_iff.1 h
      exact hs.step htotp
  | otherUpsert call =>
      obtain ⟨c, -, h⟩ := Option.bind_eq_some_iff.1 h
      split at h
      · obtain ⟨totp, htotp, rfl⟩ := Option.map_eq_some_iff.1 h
        exact hs.step htotp
      · cases h
  | sessionBegins sessionId =>
      simp only [stepUpStep] at h
      split at h
      · cases h
      · cases h
        exact hs
  | sessionEnds sessionId =>
      simp only [stepUpStep] at h
      split at h
      · cases h
      · cases h
        exact hs

theorem stepUps_step (hs : StepUps ttlSeconds s) {e : StepUpEvent}
    (h : stepUpStep codes ttlSeconds s e = some s') : StepUps ttlSeconds s' := by
  have hratchets := ratchets_step hs.ratchets h
  cases stepUp_moves hs.holds h with
  | outside frame attempts rest => exact stepUps_outside hs hratchets frame attempts rest
  | begun a frame transaction grown holds early attempts rest =>
      exact stepUps_begun hs hratchets frame transaction grown holds early attempts rest
  | moved k a phase found running frame holds unverified live attempts rest =>
      exact stepUps_moved hs hratchets found running frame holds unverified live attempts rest
  | committed k a counter verifiedAt found held frame accepted next =>
      rw [next]
      exact stepUps_committed hs hratchets found held frame accepted
  | sessionBegun sessionId next =>
      subst next
      refine ⟨hs.ratchets, hs.below, hs.apart, hs.holds, fun a ha counter verifiedAt hphase =>
        List.mem_cons_of_mem _ (hs.live a ha counter verifiedAt hphase), hs.verified, hs.once,
        fun id r hr => ?_⟩
      obtain ⟨hlive, hattempt⟩ := hs.rows id r hr
      exact ⟨List.mem_cons_of_mem _ hlive, hattempt⟩
  | sessionEnded sessionId free next =>
      subst next
      exact stepUps_ended hs free

theorem stepUps_empty : StepUps ttlSeconds noStepUps := by
  have hquiet : Quiet noStepUps.totp := ⟨rfl, rfl, rfl⟩
  refine ⟨hquiet.ratchets, fun _ h => absurd h List.not_mem_nil, fun k j a b h => ?_,
    fun _ h => absurd h List.not_mem_nil, fun _ h => absurd h List.not_mem_nil,
    fun _ h => absurd h List.not_mem_nil, fun k j a b c v v' h => ?_, fun id r h => ?_⟩
  · cases h
  · cases h
  · cases h

/-- Whoever passes the guard does so in a session that has not ended, with a code
that was accepted in that session less than the time to live ago; it has its
event, and no other attempt of the user stands on its counter. -/
theorem step_up_stands_on_code (h : exec (stepUpStep codes ttlSeconds) noStepUps es = some s)
    {twoFactorEnabled : Option Bool} {session : StepUpSession} {now : Int}
    (hpass : assertStepUp twoFactorEnabled session
      (.ok (validUntil ttlSeconds s.stepUps session.id now)) = .ok ()) :
    session.id ∈ s.sessions ∧ twoFactorEnabled = some true ∧
      ∃ k a counter verifiedAt, s.attempts[k]? = some a ∧ a.sessionId = session.id ∧
        a.phase = .verified counter verifiedAt ∧ now < verifiedAt + ttlSeconds * 1000 ∧
          ⟨a.userId, counter, a.readAt⟩ ∈ s.totp.accepted ∧ InWindow counter a.readAt ∧
            ⟨a.userId, verifiedAt + ttlSeconds * 1000, a.ip⟩ ∈ s.verified ∧
              ∀ (j : Nat) (b : StepUpAttempt) (v : Int), s.attempts[j]? = some b →
                b.userId = a.userId → b.phase = .verified counter v → j = k := by
  have hs : StepUps ttlSeconds s :=
    runs_inv (fun _ _ _ hi hstep => stepUps_step hi hstep) stepUps_empty h
  unfold assertStepUp at hpass
  split at hpass
  · cases hpass
  · split at hpass
    · cases hpass
    · next htwo =>
        split at hpass
        · next hread => cases hread
        · cases hpass
        · next expiry hread =>
            obtain ⟨hmap, hlasts⟩ := Option.filter_eq_some_iff.1 (Except.ok.inj hread)
            obtain ⟨r, hr, rfl⟩ := Option.map_eq_some_iff.1 hmap
            obtain ⟨hlive, k, a, counter, ha, hid, hphase⟩ := hs.rows session.id r hr
            obtain ⟨haccepted, hevent⟩ :=
              hs.verified a (List.mem_of_getElem? ha) counter r.verifiedAt hphase
            refine ⟨hlive, by simpa using htwo, k, a, counter, r.verifiedAt, ha, hid, hphase,
              of_decide_eq_true hlasts, haccepted, hs.ratchets.accepted _ haccepted, hevent,
              fun j b v hb huser hphase' => ?_⟩
            exact hs.once j k b a counter v r.verifiedAt hb ha huser hphase' hphase

end Runs

/-- One code for two sessions: the second attempt waits for the first, and is
refused. -/
def oneCodeTwice : List StepUpEvent :=
  [.sessionBegins "laptop", .sessionBegins "phone",
    .attempt "ada" "laptop" "111111" none adaEnrolled 90000,
    .attempt "ada" "phone" "111111" none adaEnrolled 91000, .consume 0, .record 0 92000, .commit 0,
    .consume 1]

theorem one_code_opens_laptop : ∃ s, exec (stepUpStep parityCodes 600) noStepUps oneCodeTwice =
    some s ∧ s.attempts.map StepUpAttempt.phase = [.verified 3 92000, .refused (some stepUpReplayed)] ∧
      assertStepUp (some true) ⟨"laptop", none⟩ (.ok (validUntil 600 s.stepUps "laptop" 100000)) =
        .ok () ∧ "laptop" ∈ s.sessions := by
  have hrun : (exec (stepUpStep parityCodes 600) noStepUps oneCodeTwice).map (fun s =>
      (s.attempts.map StepUpAttempt.phase, validUntil 600 s.stepUps "laptop" 100000)) =
        some ([.verified 3 92000, .refused (some stepUpReplayed)], some 692000) := by
    decide
  obtain ⟨s, hs, hview⟩ := Option.map_eq_some_iff.1 hrun
  simp only [Prod.mk.injEq] at hview
  obtain ⟨hphases, huntil⟩ := hview
  have hpass : assertStepUp (some true) ⟨"laptop", none⟩
      (.ok (validUntil 600 s.stepUps "laptop" 100000)) = .ok () := by
    rw [huntil]
    rfl
  exact ⟨s, hs, hphases, hpass, (step_up_stands_on_code hs hpass).1⟩

end CleanStack.Admin
