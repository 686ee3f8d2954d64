import CleanStack.Webhooks.Rotation

/-!
# The replaced secret

A rotation writes the secret it has read as the previous one. So what it keeps
signing is the secret it replaces only when no other rotation has come in
between; otherwise the one that came in between is gone with its first delivery,
though somebody was handed it. That is one of three ways in which a secret is
missing from a signature. The others are a delivery that has read the row before
a rotation and signs after, and a date that was worked out some time before the
rotation took effect.

With none of the three, the last secret signs every delivery, and the one before
it signs along for its grace.
-/

namespace CleanStack.Webhooks

open CleanStack.Lib CleanStack.Drizzle

section Signing

variable {κ : Type} (cfg : RotationConfig κ)

def Sent (outcome : Outcome) : Prop :=
  ∃ attempt, outcome.attempt = some attempt ∧ attempt.requestSent = true

/-- The secret is one of those the header of the request is signed with. -/
def SignedWith (clock : Time) (delivery : DeliveryRow) (endpoint : EndpointRow)
    (outcome : Outcome) (secret : String) : Prop :=
  ∃ attempt masterKey secrets, outcome.attempt = some attempt ∧
    cfg.masterKey = some masterKey ∧
    decryptSecrets cfg.platform endpoint masterKey clock = .ok secrets ∧ secret ∈ secrets ∧
    attempt.log.requestHeaders = some (requestHeadersOf delivery
      (signWebhookPayload cfg.platform (rawBodyOf cfg.platform delivery) secrets
        (clock / second)))

/-- A delivery that is sent is signed with the last secret, and with the one
before it as long as the last has been in place for less than the grace. -/
def SignsHanded (s : RotationState) : RotationEvent → Prop
  | .send j lookup net durationMs => ∀ delivery endpoint,
      s.deliveries[j]? = some ⟨delivery, some endpoint⟩ →
      let outcome := deliveryOutcome cfg s.clock delivery endpoint lookup net durationMs
      Sent outcome →
        (∀ last older, s.handed endpoint.id = last :: older →
          SignedWith cfg s.clock delivery endpoint.toEndpointRow outcome last.secret) ∧
        ∀ last before older, s.handed endpoint.id = last :: before :: older →
          s.clock < graceEnd cfg.secretGraceHours last.since →
          SignedWith cfg s.clock delivery endpoint.toEndpointRow outcome before.secret
  | _ => True

/-- A rotation replaces the secret it has read, a delivery signs with the row as
it is, and not between the date on the row and the end of the grace. -/
def InOrder (s : RotationState) : RotationEvent → Prop
  | .commit i => ∀ run newPlaintext newCipher previousSecretCipher expiresAt,
      s.rotations[i]? = some run →
      run.phase = .prepared newPlaintext newCipher previousSecretCipher expiresAt →
      ∀ row, s.endpoints.find? run.id = some row → row.secretCipher = previousSecretCipher
  | .send j _ _ _ => ∀ delivery endpoint, s.deliveries[j]? = some ⟨delivery, some endpoint⟩ →
      (s.endpoints.find? endpoint.id).map WebhookEndpointRow.toEndpointRow =
          some endpoint.toEndpointRow ∧
        ∀ last older expiresAt, s.handed endpoint.id = last :: older →
          endpoint.previousSecretExpiresAt = some expiresAt → expiresAt ≤ s.clock →
          graceEnd cfg.secretGraceHours last.since ≤ s.clock
  | _ => True

variable {cfg} {endpoint : EndpointRow} {delivery : DeliveryRow} {w : World} {masterKey : κ}

/-- What a delivery that is sent was signed with. -/
theorem signed_of_sent (hendpoint : w.endpoint = .ok (some endpoint))
    (hsent : Sent (processDelivery cfg.platform cfg.settings cfg.masterKey w delivery).1) :
    ∃ masterKey secrets, cfg.masterKey = some masterKey ∧
      decryptSecrets cfg.platform endpoint masterKey w.now = .ok secrets ∧
      ∀ secret ∈ secrets, SignedWith cfg w.now delivery endpoint
        (processDelivery cfg.platform cfg.settings cfg.masterKey w delivery).1 secret := by
  obtain ⟨attempt, hattempt, hrequest⟩ := hsent
  unfold processDelivery at hattempt ⊢
  rw [hendpoint] at hattempt ⊢
  dsimp only at hattempt ⊢
  split at hattempt
  · split at hattempt
    · cases hattempt
    · cases hattempt
      cases hrequest
  · next url hguard =>
      split at hattempt
      · cases hattempt
      · next key hkey =>
          split at hattempt
          · cases hattempt
          · next secrets hsecrets =>
              refine ⟨key, secrets, hkey, hsecrets, fun secret hsecret => ?_⟩
              exact ⟨_, key, secrets, rfl, hkey, hsecrets, hsecret, rfl⟩

end Signing

/-! ## What the row has of the secrets handed out -/

section Step

variable {κ : Type} {cfg : RotationConfig κ} {s t : RotationState} {e : RotationEvent}

/-- A secret in its encrypted form. -/
def Seals (cfg : RotationConfig κ) (organizationId cipher secret : String) : Prop :=
  ∀ masterKey, cfg.masterKey = some masterKey →
    cfg.platform.decryptSecret cipher
      (cfg.platform.deriveOrgSubKey masterKey organizationId) = .ok secret

/-- The row has the last secret, and the one before it as the previous one. -/
structure HoldsSecrets (cfg : RotationConfig κ) (row : WebhookEndpointRow) (handed : List Handed) :
    Prop where
  current : ∀ last older, handed = last :: older →
    Seals cfg row.organizationId row.secretCipher last.secret
  previous : ∀ last before older, handed = last :: before :: older →
    ∃ cipher expiresAt, row.previousSecretCipher = some cipher ∧
      row.previousSecretExpiresAt = some expiresAt ∧
      Seals cfg row.organizationId cipher before.secret

structure Kept (cfg : RotationConfig κ) (s : RotationState) : Prop where
  rows : ∀ id row, s.endpoints.find? id = some row → HoldsSecrets cfg row (s.handed id)
  prepared : ∀ run ∈ s.rotations, ∀ newPlaintext newCipher previousSecretCipher expiresAt,
    run.phase = .prepared newPlaintext newCipher previousSecretCipher expiresAt →
    Seals cfg run.organizationId newCipher newPlaintext

theorem decryptSecrets_spec {endpoint : EndpointRow} {now : Time} {masterKey : κ}
    {secrets : List String}
    (h : decryptSecrets cfg.platform endpoint masterKey now = .ok secrets) :
    ∃ current, cfg.platform.decryptSecret endpoint.secretCipher
        (cfg.platform.deriveOrgSubKey masterKey endpoint.organizationId) = .ok current ∧
      current ∈ secrets ∧
      ∀ cipher expiresAt, endpoint.previousSecretCipher = some cipher →
        endpoint.previousSecretExpiresAt = some expiresAt → now < expiresAt →
        ∃ previous, cfg.platform.decryptSecret cipher
          (cfg.platform.deriveOrgSubKey masterKey endpoint.organizationId) = .ok previous ∧
          previous ∈ secrets := by
  unfold decryptSecrets at h
  dsimp only at h
  cases hcurrent : cfg.platform.decryptSecret endpoint.secretCipher
      (cfg.platform.deriveOrgSubKey masterKey endpoint.organizationId) with
  | error error =>
      rw [hcurrent] at h
      cases h
  | ok current =>
      rw [hcurrent] at h
      refine ⟨current, rfl, ?_⟩
      split at h
      · next cipher expiresAt hcipher hexpires =>
          split at h
          · cases hprevious : cfg.platform.decryptSecret cipher
                (cfg.platform.deriveOrgSubKey masterKey endpoint.organizationId) with
            | error error =>
                rw [hprevious] at h
                cases h
            | ok previous =>
                rw [hprevious] at h
                cases h
                refine ⟨List.mem_cons_self, fun cipher' expiresAt' hcipher' _ _ => ?_⟩
                rw [hcipher] at hcipher'
                cases hcipher'
                exact ⟨previous, hprevious, by simp⟩
          · next hlate =>
              cases h
              refine ⟨List.mem_cons_self, fun cipher' expiresAt' _ hexpires' hnow => ?_⟩
              rw [hexpires] at hexpires'
              cases hexpires'
              exact absurd hnow hlate
      · next hnone =>
          cases h
          exact ⟨List.mem_cons_self, fun cipher' expiresAt' hcipher' hexpires' _ =>
            absurd hexpires' (hnone cipher' expiresAt' hcipher')⟩

/-- The secrets a delivery signs with, of a row that has not changed. -/
theorem HoldsSecrets.signs {row : WebhookEndpointRow} {handed : List Handed} {now : Time}
    {masterKey : κ} {secrets : List String} (h : HoldsSecrets cfg row handed)
    (hkey : cfg.masterKey = some masterKey)
    (hsecrets : decryptSecrets cfg.platform row.toEndpointRow masterKey now = .ok secrets) :
    (∀ last older, handed = last :: older → last.secret ∈ secrets) ∧
      ∀ last before older, handed = last :: before :: older →
        (∀ expiresAt, row.previousSecretExpiresAt = some expiresAt → now < expiresAt) →
        before.secret ∈ secrets := by
  obtain ⟨current, hcurrent, hmem, hprevious⟩ := decryptSecrets_spec hsecrets
  constructor
  · intro last older hhanded
    have hlast := h.current last older hhanded masterKey hkey
    rw [hcurrent] at hlast
    cases hlast
    exact hmem
  · intro last before older hhanded hlasts
    obtain ⟨cipher, expiresAt, hcipher, hexpires, hseals⟩ := h.previous last before older hhanded
    obtain ⟨previous, hdecrypts, hin⟩ := hprevious cipher expiresAt hcipher hexpires
      (hlasts expiresAt hexpires)
    rw [hseals masterKey hkey] at hdecrypts
    cases hdecrypts
    exact hin

theorem Kept.signs (hs : Kept cfg s) (hcond : InOrder cfg s e) : SignsHanded cfg s e := by
  cases e with
  | send j lookup net durationMs =>
      intro delivery endpoint hdelivery outcome hsent
      obtain ⟨hrow, hgap⟩ := hcond delivery endpoint hdelivery
      obtain ⟨row, hfind, hsame⟩ := Option.map_eq_some_iff.1 hrow
      obtain ⟨masterKey, secrets, hkey, hsecrets, hsigned⟩ := signed_of_sent rfl hsent
      have hexpires : row.previousSecretExpiresAt = endpoint.previousSecretExpiresAt :=
        congrArg EndpointRow.previousSecretExpiresAt hsame
      rw [← hsame] at hsecrets
      obtain ⟨hlast, hbefore⟩ := (hs.rows endpoint.id row hfind).signs hkey hsecrets
      refine ⟨fun last older hhanded => hsigned _ (hlast last older hhanded),
        fun last before older hhanded hgrace => hsigned _ ?_⟩
      refine hbefore last before older hhanded fun expiresAt hat => ?_
      by_contra hlate
      have hover := hgap last (before :: older) expiresAt hhanded (hexpires ▸ hat)
        (Nat.not_lt.1 hlate)
      exact absurd hgrace (Nat.not_lt.2 hover)
  | _ => trivial

theorem find?_applySecretRotation {t : EndpointTable} {id organizationId secretCipher
    previousSecretCipher : String} {expiresAt : Time} (other : String) :
    (applySecretRotation t id organizationId secretCipher previousSecretCipher expiresAt).find?
      other = (t.find? other).map fun r =>
        if ownedBy id organizationId r then
          rotatedSet secretCipher previousSecretCipher expiresAt r
        else r :=
  Table.find?_update

/-- The row a rotation leaves: what it replaces is what it has read. -/
theorem HoldsSecrets.rotated {row : WebhookEndpointRow} {handed : List Handed} {now : Time}
    {newPlaintext newCipher : String} {expiresAt : Time} (h : HoldsSecrets cfg row handed)
    (hseals : Seals cfg row.organizationId newCipher newPlaintext) :
    HoldsSecrets cfg (rotatedSet newCipher row.secretCipher expiresAt row)
      (⟨newPlaintext, now⟩ :: handed) := by
  constructor
  · intro last older hhanded
    cases hhanded
    exact hseals
  · intro last before older hhanded
    cases hhanded
    exact ⟨row.secretCipher, expiresAt, rfl, rfl, h.current before older rfl⟩

theorem Kept.committed (hs : Kept cfg s) {i : Nat} {run : RotationRun} {newPlaintext newCipher
    previousSecretCipher : String} {expiresAt : Time} {row : WebhookEndpointRow}
    (hrun : run ∈ s.rotations)
    (hphase : run.phase = .prepared newPlaintext newCipher previousSecretCipher expiresAt)
    (hrow : findById s.endpoints run.id run.organizationId = some row)
    (hread : row.secretCipher = previousSecretCipher) :
    Kept cfg { s.setRotation i run (.returned (some newPlaintext)) with
      endpoints := applySecretRotation s.endpoints run.id run.organizationId newCipher
        previousSecretCipher expiresAt
      handed := fun id =>
        if id = run.id then ⟨newPlaintext, s.clock⟩ :: s.handed id else s.handed id } := by
  obtain ⟨hfind, horg⟩ := findById_eq_some hrow
  refine ⟨fun id row' hrow' => ?_, fun run' hrun' => ?_⟩
  · rw [find?_applySecretRotation] at hrow'
    obtain ⟨r, hr, hset⟩ := Option.map_eq_some_iff.1 hrow'
    by_cases hid : id = run.id
    · subst hid
      rw [hfind] at hr
      cases hr
      have howned : ownedBy run.id run.organizationId row = true := by
        rw [ownedBy, Bool.and_eq_true, decide_eq_true_eq, decide_eq_true_eq]
        exact ⟨(Table.find?_eq_some.1 hfind).2, horg⟩
      rw [if_pos howned] at hset
      subst hset hread
      have hseals := hs.prepared run hrun _ _ _ _ hphase
      rw [← horg] at hseals
      show HoldsSecrets cfg _ (if run.id = run.id then ⟨newPlaintext, s.clock⟩ :: s.handed run.id
        else s.handed run.id)
      rw [if_pos rfl]
      exact (hs.rows run.id row hfind).rotated hseals
    · have hnot : ¬ ownedBy run.id run.organizationId r = true := by
        rw [ownedBy, Bool.and_eq_true, decide_eq_true_eq]
        exact fun h => hid ((Table.find?_eq_some.1 hr).2.symm.trans h.1)
      rw [if_neg hnot] at hset
      subst hset
      show HoldsSecrets cfg r (if id = run.id then ⟨newPlaintext, s.clock⟩ :: s.handed id
        else s.handed id)
      rw [if_neg hid]
      exact hs.rows id r hr
  · rcases List.mem_or_eq_of_mem_set hrun' with hold | rfl
    · exact hs.prepared run' hold
    · exact fun _ _ _ _ h => by cases h

theorem Kept.step
    (hseal : ∀ nonce plaintext key, cfg.platform.decryptSecret
      (cfg.encryptSecret nonce plaintext key) key = .ok plaintext)
    (hs : Kept cfg s) (hcond : InOrder cfg s e) (h : rotationStep cfg s e = some t) :
    Kept cfg t := by
  cases e with
  | rotate id organizationId =>
      unfold rotationStep at h
      dsimp only at h
      split at h
      · cases h
        exact hs
      · split at h
        · cases h
          exact hs
        · cases h
          refine ⟨hs.rows, fun run hrun => ?_⟩
          rcases List.mem_append.1 hrun with hold | hnew
          · exact hs.prepared run hold
          · cases List.mem_singleton.1 hnew
            nofun
  | prepare i nonce newPlaintext =>
      obtain ⟨run, hrun, h⟩ := Option.bind_eq_some_iff.1 h
      split at h
      · next endpoint masterKey _ hkey =>
          cases h
          refine ⟨hs.rows, fun run' hrun' => ?_⟩
          rcases List.mem_or_eq_of_mem_set hrun' with hold | rfl
          · exact hs.prepared run' hold
          · intro _ _ _ _ hphase
            cases hphase
            intro masterKey' hkey'
            rw [hkey] at hkey'
            cases hkey'
            exact hseal nonce newPlaintext _
      · cases h
  | commit i =>
      obtain ⟨run, hrun, h⟩ := Option.bind_eq_some_iff.1 h
      split at h
      · next newPlaintext newCipher previousSecretCipher expiresAt hphase =>
          split at h
          · cases h
            refine ⟨hs.rows, fun run' hrun' => ?_⟩
            rcases List.mem_or_eq_of_mem_set hrun' with hold | rfl
            · exact hs.prepared run' hold
            · nofun
          · next row hrow =>
              cases h
              exact hs.committed (List.mem_of_getElem? hrun) hphase hrow
                (hcond run _ _ _ _ hrun hphase row (findById_eq_some hrow).1)
      · cases h
  | look delivery =>
      cases h
      exact ⟨hs.rows, hs.prepared⟩
  | send j lookup net durationMs =>
      obtain ⟨run, -, rfl⟩ := Option.map_eq_some_iff.1 h
      exact ⟨hs.rows, hs.prepared⟩
  | wait n =>
      cases h
      exact ⟨hs.rows, hs.prepared⟩

end Step

/-- Endpoints as they are, and nobody at work. -/
structure Unrotated (s : RotationState) : Prop where
  rotations : s.rotations = []
  handed : ∀ id, s.handed id = []

theorem Unrotated.kept {κ : Type} {cfg : RotationConfig κ} {s : RotationState}
    (h : Unrotated s) : Kept cfg s := by
  refine ⟨fun id row _ => ?_, fun run hrun => ?_⟩
  · rw [h.handed]
    exact ⟨nofun, nofun⟩
  · rw [h.rotations] at hrun
    cases hrun

theorem replaced_secret_signs {κ : Type} {cfg : RotationConfig κ} {s₀ : RotationState}
    {es : List RotationEvent}
    (hseal : ∀ nonce plaintext key, cfg.platform.decryptSecret
      (cfg.encryptSecret nonce plaintext key) key = .ok plaintext)
    (h : Unrotated s₀) (hmeets : Meets (rotationStep cfg) (InOrder cfg) s₀ es) :
    Meets (rotationStep cfg) (SignsHanded cfg) s₀ es :=
  meets_imp (fun _ _ hs hcond => hs.signs hcond)
    (fun _ _ _ hs hcond hstep => hs.step hseal hcond hstep) h.kept hmeets

/-! ## Runs on fixed inputs -/

def plainRotation : RotationConfig Unit where
  platform := plainPlatform
  encryptSecret _ plaintext _ := plaintext
  masterKey := some ()
  settings := ⟨true, 5000, 4096⟩
  secretGraceHours := 24

def unrotatedEndpoint : WebhookEndpointRow :=
  newEndpoint ⟨"w1", "org", hooksUrl.href, "whsec_0", none, none⟩ ["*"] true

def unrotatedState : RotationState :=
  { clock := 0
    endpoints := ⟨[unrotatedEndpoint], List.nodup_singleton _⟩
    rotations := []
    deliveries := []
    handed := fun _ => [] }

def acceptingNet : Network :=
  { connect := fun _ _ => .ok "93.184.216.34"
    answer := fun _ _ => .response ⟨200, "OK", [], none⟩ }

def sendFirst : RotationEvent := .send 0 (.addresses ["93.184.216.34"]) acceptingNet 5

/-- Two callers read one secret, and each writes it as the previous one. -/
def rotatedAtOnce : List RotationEvent :=
  [.rotate "w1" "org", .rotate "w1" "org", .prepare 0 [] "whsec_1", .prepare 1 [] "whsec_2",
    .commit 0, .commit 1, .look paidDelivery]

/-- What the first delivery is about to sign with, and whether it gets to. -/
def firstSigns (s : RotationState) : Option (String × Option (List String) × Option Bool) :=
  s.deliveries[0]?.bind fun run => run.endpoint.map fun endpoint =>
    (endpoint.id, (decryptSecrets plainPlatform endpoint.toEndpointRow () s.clock).toOption,
      (deliveryOutcome plainRotation s.clock run.delivery endpoint (.addresses ["93.184.216.34"])
        acceptingNet 5).attempt.map Attempt.requestSent)

theorem secret_dropped_without_grace :
    ¬ Meets (rotationStep plainRotation) (SignsHanded plainRotation) unrotatedState
      (rotatedAtOnce ++ [sendFirst]) := by
  have hrun : (exec (rotationStep plainRotation) unrotatedState rotatedAtOnce).map
      firstSigns = some (some ("w1", some ["whsec_2", "whsec_0"], some true)) := by
    decide
  have hghost : (exec (rotationStep plainRotation) unrotatedState rotatedAtOnce).map
      (fun s => (s.handed "w1", s.clock)) =
        some ([⟨"whsec_2", 0⟩, ⟨"whsec_1", 0⟩], 0) := by decide
  obtain ⟨s, hs, hfirst⟩ := Option.map_eq_some_iff.1 hrun
  rw [hs] at hghost
  obtain ⟨hhanded, hclock⟩ := Prod.mk.inj (Option.some.inj hghost)
  obtain ⟨⟨delivery, found⟩, hdelivery, hfound⟩ := Option.bind_eq_some_iff.1 hfirst
  obtain ⟨endpoint, rfl, hsigns⟩ := Option.map_eq_some_iff.1 hfound
  simp only [Prod.mk.injEq] at hsigns
  obtain ⟨hid, hsecrets, hsent⟩ := hsigns
  intro hmeets
  have hsigned := ((meets_append hmeets hs).1 delivery endpoint hdelivery
    (Option.map_eq_some_iff.1 hsent)).2 ⟨"whsec_2", 0⟩ ⟨"whsec_1", 0⟩ [] (hid ▸ hhanded)
    (by rw [hclock]; decide)
  obtain ⟨_, _, secrets, -, -, hdecrypts, hmem, -⟩ := hsigned
  change decryptSecrets plainPlatform endpoint.toEndpointRow () s.clock = _ at hdecrypts
  rw [hdecrypts] at hsecrets
  cases hsecrets
  exact absurd hmem (by decide)

/-- A test that is enough for `InOrder`. -/
def keepsOrder (s : RotationState) : RotationEvent → Bool
  | .commit i => s.rotations[i]?.all fun run =>
      match run.phase with
      | .prepared _ _ previousSecretCipher _ =>
          (s.endpoints.find? run.id).all fun row => row.secretCipher = previousSecretCipher
      | _ => true
  | .send j _ _ _ => s.deliveries[j]?.all fun run => run.endpoint.all fun endpoint =>
      decide ((s.endpoints.find? endpoint.id).map WebhookEndpointRow.toEndpointRow =
        some endpoint.toEndpointRow) &&
      endpoint.previousSecretExpiresAt.all fun expiresAt => s.clock < expiresAt
  | _ => true

theorem inOrder_of_keepsOrder (s : RotationState) (e : RotationEvent)
    (h : keepsOrder s e = true) : InOrder plainRotation s e := by
  cases e with
  | commit i =>
      intro run newPlaintext newCipher previousSecretCipher expiresAt hrun hphase row hrow
      rw [keepsOrder, hrun, Option.all_some, hphase, hrow] at h
      exact of_decide_eq_true h
  | send j lookup net durationMs =>
      intro delivery endpoint hdelivery
      rw [keepsOrder, hdelivery, Option.all_some, Option.all_some, Bool.and_eq_true,
        decide_eq_true_eq] at h
      refine ⟨h.1, fun last older expiresAt _ hexpires hlate => ?_⟩
      rw [hexpires, Option.all_some, decide_eq_true_eq] at h
      exact absurd hlate (Nat.not_le.2 h.2)
  | _ => trivial

/-- Two rotations an hour apart, and a delivery an hour after. -/
def rotatedInTurn : List RotationEvent :=
  [.rotate "w1" "org", .prepare 0 [] "whsec_1", .commit 0, .wait (3600 * second),
    .rotate "w1" "org", .prepare 1 [] "whsec_2", .commit 1, .wait (3600 * second),
    .look paidDelivery]

theorem replaced_secret_signs_in_turn :
    (exec (rotationStep plainRotation) unrotatedState rotatedInTurn).map firstSigns =
        some (some ("w1", some ["whsec_2", "whsec_1"], some true)) ∧
      Meets (rotationStep plainRotation) (SignsHanded plainRotation) unrotatedState
        (rotatedInTurn ++ [sendFirst]) :=
  ⟨by decide, replaced_secret_signs (fun _ _ _ => rfl) ⟨rfl, fun _ => rfl⟩
    (meets_of_passes inOrder_of_keepsOrder (by decide))⟩

end CleanStack.Webhooks
