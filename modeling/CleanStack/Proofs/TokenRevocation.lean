import CleanStack.Proofs.TokenRows

/-!
# A token is revoked once

An owner, a report and a lost membership may all go for one token, each having
read it before. The statement of each is conditional on the column it writes,
so one of them finds the row, and only its transaction announces anything. The
log is therefore read off the table, token by token: nothing about a token that
is open, and about one that is revoked a single event, with the owner, the
organization and the reason that the row itself has.
-/

namespace CleanStack.ApiToken

open CleanStack.Lib CleanStack.Kit

variable {hmacToken : String → JsString → String}

/-- What the log should say of a row. -/
def closingOf (r : ApiTokenRecord) : List (String × Option String × ApiTokenRevokedReason) :=
  (r.revokedAt.bind fun _ => r.revokedReason).toList.map fun reason =>
    (r.userId, r.organizationId, reason)

/-- The log and the table say the same of every token. -/
def Announced (s : BearerState) : Prop :=
  ∀ id, aboutToken s.revocations id = (s.tokens.find? id).toList.flatMap closingOf

theorem aboutToken_append (log more : List RevokedEvent) (id : String) :
    aboutToken (log ++ more) id = aboutToken log id ++ aboutToken more id := by
  rw [aboutToken, List.filter_append, List.map_append]
  rfl

theorem closingOf_open {r : ApiTokenRecord} (h : r.revokedAt = none) : closingOf r = [] := by
  rw [closingOf, h]
  rfl

/-- A statement that writes neither the owner nor the revocation of a row. -/
theorem closing_update {t : ApiTokenRecords} {p : ApiTokenRecord → Bool}
    {f : ApiTokenRecord → ApiTokenRecord} (hf : ∀ r, Keyed.key (f r) = Keyed.key r)
    (hsame : ∀ r, closingOf (f r) = closingOf r) (id : String) :
    ((t.update p f hf).find? id).toList.flatMap closingOf =
      (t.find? id).toList.flatMap closingOf := by
  rw [Table.find?_update]
  cases t.find? id with
  | none => rfl
  | some r =>
      show closingOf (if p r then f r else r) ++ [] = closingOf r ++ []
      split
      · rw [hsame]
      · rfl

theorem closing_revoke {t : ApiTokenRecords} {p : ApiTokenRecord → Bool} {now : Millis}
    {reason : ApiTokenRevokedReason} (spares : ∀ r, p r = true → r.revokedAt = none) (id : String) :
    ((t.update p (revokedRecord now reason) (key_revokedRecord now reason)).find? id).toList.flatMap
        closingOf =
      (t.find? id).toList.flatMap closingOf ++ announcedBy t p reason id := by
  rw [Table.find?_update, announcedBy]
  cases t.find? id with
  | none => rfl
  | some r =>
      rw [Option.filter_some]
      show closingOf (if p r then revokedRecord now reason r else r) ++ [] =
        (closingOf r ++ []) ++ _
      cases hp : p r with
      | true =>
          rw [closingOf_open (spares r hp)]
          rfl
      | false => simp

theorem announced_moves {s s' : BearerState} {e : BearerEvent} (hs : Announced s)
    (h : Moves hmacToken s e s') : Announced s' := by
  intro id
  cases h with
  | still tokens _ revocations _ =>
      rw [tokens, revocations]
      exact hs id
  | created record raw pepper fresh _ _ inserted _ revocations _ =>
      have hinsert := insert_of_insertRecord inserted
      rw [revocations, hs id, Table.find?_insert hinsert]
      split
      · next hid =>
          have hnone : s.tokens.find? id = none :=
            Table.find?_eq_none.2 fun r hr hkey =>
              Table.insert_fresh hinsert r hr (hkey.trans hid.symm)
          rw [hnone]
          show [] = closingOf record ++ []
          rw [closingOf_open fresh]
          rfl
      · rfl
  | revoked p now reason spares tokens _ events revocations announced _ =>
      rw [tokens, revocations, aboutToken_append, hs id, announced, closing_revoke spares]
  | used k q record floorAt now _ _ _ tokens _ revocations _ =>
      rw [tokens, revocations, hs id, touchLastUsed]
      exact (closing_update (key_usedRecord now) (fun _ => rfl) id).symm
  | rehashed k q record now _ _ tokens _ revocations _ =>
      rw [tokens, revocations, hs id, rehash]
      split
      · rfl
      · exact (closing_update (key_rehashedRecord _ _) (fun _ => rfl) id).symm

theorem known_empty : Known emptyBearers :=
  ⟨fun _ h => absurd h List.not_mem_nil, fun _ h => absurd h List.not_mem_nil⟩

theorem announced_empty : Announced emptyBearers := fun _ => rfl

variable {u : BearerState} {es : List BearerEvent}

/-- Whoever revokes, and however the requests, reports and revocations
interleave: a token is announced as revoked once if it is, as what the row says,
and never before. -/
theorem revocation_announced_once (h : exec (bearerStep hmacToken) emptyBearers es = some u)
    (id : String) :
    aboutToken u.revocations id = (u.tokens.find? id).toList.flatMap closingOf := by
  have hstep : ∀ s e s', Known s ∧ Announced s → bearerStep hmacToken s e = some s' →
      Known s' ∧ Announced s' := fun s e s' hi hs =>
    ⟨known_step hi.1 hs, announced_moves hi.2 (bearer_moves hi.1 hs)⟩
  have hinv : Known u ∧ Announced u := runs_inv hstep ⟨known_empty, announced_empty⟩ h
  exact hinv.2 id

/-- Ada asks twice for the same token to be revoked, and both requests read the
open row. -/
def removedTwice : List BearerEvent :=
  let remove : BearerEvent := .remove "t1" (.personal "ada") "ada"
  [issue "t1" 0, remove, remove, .removalFind 0, .removalFind 1, .removalRevoke 1 2000,
    .removalRevoke 0 3000]

theorem removed_twice_announced_once :
    ∃ u, exec (bearerStep shownHmac) emptyBearers removedTwice = some u ∧
      (u.tokens.find? "t1").toList.flatMap closingOf = [("ada", none, .user)] ∧
        aboutToken u.revocations "t1" = (u.tokens.find? "t1").toList.flatMap closingOf := by
  have hrun : (exec (bearerStep shownHmac) emptyBearers removedTwice).map
      (fun u => (u.tokens.find? "t1").toList.flatMap closingOf) =
        some [("ada", none, .user)] := by
    rw [removedTwice, exec, step_issue both_generated.1.1, Option.bind_some]
    decide
  obtain ⟨u, hu, hview⟩ := Option.map_eq_some_iff.1 hrun
  exact ⟨u, hu, hview, revocation_announced_once hu "t1"⟩

end CleanStack.ApiToken
