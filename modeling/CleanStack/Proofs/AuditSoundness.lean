import CleanStack.Proofs.AuditChain

/-!
# What the last hash of a verified log says

Everything that is printed. A hash is the digest of a canonical text, the
canonical text of a record can be read back, and part of what is read is the hash
before it; so two logs that verify and end in the same hash agree from their last
row down to their first, and reach the genesis value together.

What is not printed is a number beyond the doubles. A `jsonb` column stores it,
`JSON.parse` reads an infinity and `JSON.stringify` writes `null`, so it can take
the place of a `null` in a row's metadata and nothing shows it.

The digest is only known to be injective and never to be the genesis value.
-/

namespace CleanStack.Audit

open CleanStack.Lib CleanStack.Kit

/-- The fields a hash covers agree; `metadata` may differ in key order. -/
structure SameRecord (a b : AuditRow) : Prop where
  id : a.id = b.id
  action : a.action = b.action
  actorId : a.actorId = b.actorId
  actorType : a.actorType = b.actorType
  organizationId : a.organizationId = b.organizationId
  targetType : a.targetType = b.targetType
  targetId : a.targetId = b.targetId
  metadata : SameJson a.metadata.value b.metadata.value
  occurredAt : a.occurredAt.date = b.occurredAt.date
  requestId : a.requestId = b.requestId
  retention : a.retention = b.retention

/-- The row with other metadata in its column. -/
def AuditRow.reread (f : Parsed → Parsed) (r : AuditRow) : AuditRow :=
  { r with metadata := f r.metadata }

/-- Both logs verify and their last hashed rows carry the same hash. -/
structure SameEnd (sha256 : String → String) (log log' : AuditLog) : Prop where
  verified : (verifyChain sha256 log).verified = true
  verified' : (verifyChain sha256 log').verified = true
  last : (hashedRows log).getLast?.map AuditRow.hash =
    (hashedRows log').getLast?.map AuditRow.hash

def Agree (log log' : AuditLog) : Prop :=
  (hashedRows log).length = (hashedRows log').length ∧
    List.Forall₂ SameRecord (hashedRows log) (hashedRows log')

/-- No number in the metadata of a hashed row is beyond the doubles. -/
def FiniteLog (log : AuditLog) : Prop :=
  ∀ r ∈ hashedRows log, isFinite r.metadata.value = true

/-- Nor does any metadata hold a `null`. -/
def UnblankLog (log : AuditLog) : Prop :=
  ∀ r ∈ hashedRows log, isUnblank r.metadata.value = true

theorem str_inj_of_same {s t : String} (h : SameJson (.str s) (.str t)) : s = t := by
  cases h
  rfl

theorem nullable_inj_of_same {s t : Option String} (h : SameJson (nullable s) (nullable t)) :
    s = t := by
  cases s <;> cases t <;> cases h <;> rfl

theorem nodup_fields (input : AuditHashInput) : (input.fields.map Prod.fst).Nodup := by
  show ["id", "action", "actorId", "actorType", "organizationId", "targetType", "targetId",
    "metadata", "occurredAt", "requestId", "retention", "prevHash"].Nodup
  decide

theorem isParsed_nullable (s : Option String) : isParsed (nullable s) = true := by
  cases s <;> rfl

theorem withBlanks_nullable (s : Option String) :
    withBlanks .null (nullable s) = nullable s := by
  cases s <;> rfl

theorem isParsed_fields (input : AuditHashInput) : isParsed (.obj input.fields) = true := by
  rw [isParsed, decide_eq_true (nodup_fields input), Bool.true_and, fieldsParsed_iff]
  intro f hf
  simp only [AuditHashInput.fields, List.mem_cons, List.not_mem_nil, or_false] at hf
  rcases hf with rfl | rfl | rfl | rfl | rfl | rfl | rfl | rfl | rfl | rfl | rfl | rfl
  case inr.inr.inr.inr.inr.inr.inr.inl => exact input.metadata.parsed
  all_goals first | rfl | exact isParsed_nullable _

/-- Of what is hashed only the metadata can hold an infinity. -/
theorem withBlanks_fields (input : AuditHashInput) :
    withBlanks .null (.obj input.fields) =
      .obj { input with metadata := input.metadata.printed }.fields := by
  simp only [AuditHashInput.fields, withBlanks, fieldsWithBlanks, withBlanks_nullable,
    Parsed.printed]

/-- Rows with the same digest say the same as they are printed and name the same
hash. -/
theorem same_of_digest {sha256 : String → String} (hsha : Function.Injective sha256)
    {a b : AuditRow} (h : digestOf sha256 a = digestOf sha256 b) :
    SameRecord (a.reread Parsed.printed) (b.reread Parsed.printed) ∧
      a.prevHash.getD GENESIS_HASH = b.prevHash.getD GENESIS_HASH := by
  have hsame : SameJson (.obj (hashInputOf (a.reread Parsed.printed)).fields)
      (.obj (hashInputOf (b.reread Parsed.printed)).fields) := by
    have hprinted := same_of_canonicalize (isParsed_fields _) (isParsed_fields _) (hsha h)
    rw [withBlanks_fields, withBlanks_fields] at hprinted
    exact hprinted
  have hkeys := nodup_fields (hashInputOf (b.reread Parsed.printed))
  have hdate : toISOString a.occurredAt.date = toISOString b.occurredAt.date :=
    str_inj_of_same (hsame.lookup hkeys (k := "occurredAt") rfl rfl)
  exact ⟨{
      id := str_inj_of_same (hsame.lookup hkeys (k := "id") rfl rfl)
      action := str_inj_of_same (hsame.lookup hkeys (k := "action") rfl rfl)
      actorId := nullable_inj_of_same (hsame.lookup hkeys (k := "actorId") rfl rfl)
      actorType := str_inj_of_same (hsame.lookup hkeys (k := "actorType") rfl rfl)
      organizationId :=
        nullable_inj_of_same (hsame.lookup hkeys (k := "organizationId") rfl rfl)
      targetType := str_inj_of_same (hsame.lookup hkeys (k := "targetType") rfl rfl)
      targetId := str_inj_of_same (hsame.lookup hkeys (k := "targetId") rfl rfl)
      metadata := hsame.lookup hkeys (k := "metadata") rfl rfl
      occurredAt := toISOString_injective hdate
      requestId := nullable_inj_of_same (hsame.lookup hkeys (k := "requestId") rfl rfl)
      retention := str_inj_of_same (hsame.lookup hkeys (k := "retention") rfl rfl) },
    str_inj_of_same (hsame.lookup hkeys (k := "prevHash") rfl rfl)⟩

theorem lastHash_congr {log log' : AuditLog}
    (h : (hashedRows log).getLast?.map AuditRow.hash =
      (hashedRows log').getLast?.map AuditRow.hash) : lastHash log = lastHash log' := by
  have hjoin : ∀ l : AuditLog, lastHash l =
      ((hashedRows l).getLast?.map AuditRow.hash).join.getD GENESIS_HASH := by
    intro l
    rw [lastHash]
    cases (hashedRows l).getLast? <;> rfl
  rw [hjoin, hjoin, h]

/-- Two logs that end alike have the same hashed rows, as they are printed. -/
theorem printed_of_sameEnd {sha256 : String → String} (hsha : Function.Injective sha256)
    (hgenesis : ∀ text, sha256 text ≠ GENESIS_HASH) {log log' : AuditLog}
    (h : SameEnd sha256 log log') :
    List.Forall₂ (fun a b => SameRecord (a.reread Parsed.printed) (b.reread Parsed.printed))
      (hashedRows log) (hashedRows log') := by
  have hlinked := verified_iff.1 h.verified
  have hlinked' := verified_iff.1 h.verified'
  have hdigest : ∀ a b x y, AuditRow.prevHash a = some x → AuditRow.prevHash b = some y →
      digestOf sha256 a = digestOf sha256 b →
        SameRecord (a.reread Parsed.printed) (b.reread Parsed.printed) ∧ x = y := by
    intro a b x y ha hb h
    obtain ⟨hsame, hprev⟩ := same_of_digest hsha h
    rw [ha, hb] at hprev
    exact ⟨hsame, hprev⟩
  have hend : reached (digestOf sha256) GENESIS_HASH (hashedRows log) =
      reached (digestOf sha256) GENESIS_HASH (hashedRows log') := by
    rw [← lastHash_eq hlinked, ← lastHash_eq hlinked']
    exact lastHash_congr h.last
  exact chained_same hdigest (fun _ => hgenesis _) hlinked hlinked' hend

/-- Rows with finite numbers are as they are printed. -/
theorem sameRecord_of_printed {a b : AuditRow} (ha : isFinite a.metadata.value = true)
    (hb : isFinite b.metadata.value = true)
    (h : SameRecord (a.reread Parsed.printed) (b.reread Parsed.printed)) : SameRecord a b := by
  have hmetadata : SameJson (withBlanks .null a.metadata.value)
      (withBlanks .null b.metadata.value) := h.metadata
  rw [withBlanks_of_finite ha, withBlanks_of_finite hb] at hmetadata
  exact { h with metadata := hmetadata }

/-- What is printed like a row without blanks has none either. -/
theorem isFinite_of_printed {a b : AuditRow} (ha : isUnblank a.metadata.value = true)
    (h : SameRecord (a.reread Parsed.printed) (b.reread Parsed.printed)) :
    isFinite b.metadata.value = true := by
  have hmetadata : SameJson (withBlanks .null a.metadata.value)
      (withBlanks .null b.metadata.value) := h.metadata
  rw [withBlanks_of_finite (isFinite_of_isUnblank ha)] at hmetadata
  rw [isUnblank_same hmetadata] at ha
  exact isFinite_of_isUnblank (isUnblank_of_all_leaves ha rfl rfl)

theorem agree_of_finite {sha256 : String → String} (hsha : Function.Injective sha256)
    (hgenesis : ∀ text, sha256 text ≠ GENESIS_HASH) {log log' : AuditLog}
    (hfinite : FiniteLog log) (hfinite' : FiniteLog log') (h : SameEnd sha256 log log') :
    Agree log log' := by
  have hprinted := printed_of_sameEnd hsha hgenesis h
  have hleft := (List.forall₂_and_left _ _).2 ⟨hfinite, hprinted⟩
  have hboth := (List.forall₂_and_left _ _).2 ⟨hfinite', List.Forall₂.flip hleft⟩
  have hrows : List.Forall₂ SameRecord (hashedRows log) (hashedRows log') :=
    List.Forall₂.flip (hboth.imp fun b a hab => sameRecord_of_printed hab.2.1 hab.1 hab.2.2)
  exact ⟨hrows.length_eq, hrows⟩

theorem agree_of_unblank {sha256 : String → String} (hsha : Function.Injective sha256)
    (hgenesis : ∀ text, sha256 text ≠ GENESIS_HASH) {log log' : AuditLog}
    (hunblank : UnblankLog log) (h : SameEnd sha256 log log') : Agree log log' := by
  have hprinted := printed_of_sameEnd hsha hgenesis h
  have hleft := (List.forall₂_and_left _ _).2 ⟨hunblank, hprinted⟩
  have hrows : List.Forall₂ SameRecord (hashedRows log) (hashedRows log') :=
    hleft.imp fun a b hab =>
      sameRecord_of_printed (isFinite_of_isUnblank hab.1) (isFinite_of_printed hab.1 hab.2) hab.2
  exact ⟨hrows.length_eq, hrows⟩

/-! ## Edits that do not show -/

/-- What is printed alike is hashed alike. -/
theorem computeAuditHash_congr (sha256 : String → String) (input : AuditHashInput)
    {metadata : Parsed} (h : canonicalize metadata.value = canonicalize input.metadata.value) :
    computeAuditHash sha256 { input with metadata } = computeAuditHash sha256 input := by
  have hfields : canonicalizeFields { input with metadata }.fields =
      canonicalizeFields input.fields := by
    simp only [AuditHashInput.fields, canonicalizeFields, h]
  rw [computeAuditHash, computeAuditHash, canonicalize, canonicalize, hfields]

section Reread

variable {sha256 : String → String} {f : Parsed → Parsed}

/-- The log with other metadata in every row. -/
def rereadLog (f : Parsed → Parsed) (log : AuditLog) : AuditLog :=
  log.update (fun _ => true) (AuditRow.reread f) fun _ => rfl

theorem hashedRows_rereadLog (log : AuditLog) :
    hashedRows (rereadLog f log) = (hashedRows log).map (AuditRow.reread f) := by
  have hrows : (rereadLog f log).rows = log.rows.map (AuditRow.reread f) := rfl
  have hsorted : (hashedRows log).map (AuditRow.reread f) =
      ((log.rows.filter fun r => r.hash.isSome).map (AuditRow.reread f)).insertionSort
        fun a b => a.sequence ≤ b.sequence :=
    List.map_insertionSort _ _ _ _ fun _ _ _ _ => Iff.rfl
  rw [hsorted, hashedRows, hrows, List.filter_map]
  rfl

theorem linked_reread (hf : ∀ v, canonicalize (f v).value = canonicalize v.value)
    {g : String} {rows : List AuditRow} (h : Linked sha256 g rows) :
    Linked sha256 g (rows.map (AuditRow.reread f)) := by
  induction rows generalizing g with
  | nil => trivial
  | cons r rows ih =>
      have hdigest : digestOf sha256 (r.reread f) = digestOf sha256 r :=
        computeAuditHash_congr sha256 (hashInputOf r) (hf r.metadata)
      obtain ⟨hprev, hown, hrest⟩ := h
      rw [List.map_cons]
      refine ⟨hprev, ?_, ?_⟩
      · rw [hdigest]
        exact hown
      · rw [hdigest]
        exact ih hrest

/-- Metadata that prints alike can stand in a log's columns unseen. -/
theorem sameEnd_rereadLog (hf : ∀ v, canonicalize (f v).value = canonicalize v.value)
    {log : AuditLog} (hv : (verifyChain sha256 log).verified = true) :
    SameEnd sha256 log (rereadLog f log) where
  verified := hv
  verified' := by
    rw [verified_iff, hashedRows_rereadLog]
    exact linked_reread hf (verified_iff.1 hv)
  last := by
    rw [hashedRows_rereadLog, List.getLast?_map, Option.map_map]
    rfl

theorem same_of_agree_rereadLog {log : AuditLog} (h : Agree log (rereadLog f log)) :
    ∀ r ∈ hashedRows log, SameJson r.metadata.value (f r.metadata).value := by
  have hrows := h.2
  rw [hashedRows_rereadLog, List.forall₂_map_right_iff, List.forall₂_same] at hrows
  exact fun r hr => (hrows r hr).metadata

end Reread

theorem finiteLog_printed (log : AuditLog) : FiniteLog (rereadLog Parsed.printed log) := by
  intro r hr
  rw [hashedRows_rereadLog] at hr
  obtain ⟨r, _, rfl⟩ := List.mem_map.1 hr
  exact isFinite_withBlanks _

/-- What the last hash of a log that verifies says of the others that end in it.
Among logs with finite numbers it fixes every row, when the log is one of them;
among all logs it does when no metadata has a place where a `null` and an
infinity could be exchanged. -/
theorem last_hash_fixes_log_iff {sha256 : String → String}
    (hsha : Function.Injective sha256) (hgenesis : ∀ text, sha256 text ≠ GENESIS_HASH)
    (log : AuditLog) :
    ((∀ log', FiniteLog log' → SameEnd sha256 log log' → Agree log log') ↔
      ((verifyChain sha256 log).verified = true → FiniteLog log)) ∧
    ((∀ log', SameEnd sha256 log log' → Agree log log') ↔
      ((verifyChain sha256 log).verified = true → UnblankLog log)) := by
  refine ⟨⟨fun h hv r hr => ?_, fun h log' hfinite' hend => ?_⟩,
    ⟨fun h hv r hr => ?_, fun h log' hend => ?_⟩⟩
  · have hagree := h _ (finiteLog_printed log) (sameEnd_rereadLog canonicalize_printed hv)
    rw [isFinite_same (same_of_agree_rereadLog hagree r hr)]
    exact isFinite_withBlanks _
  · exact agree_of_finite hsha hgenesis (h hend.verified) hfinite' hend
  · have hagree := h _ (sameEnd_rereadLog canonicalize_misread hv)
    exact isUnblank_of_same_misread (same_of_agree_rereadLog hagree r hr)
  · exact agree_of_unblank hsha hgenesis (h hend.verified) hend

/-! ## Logs at hand -/

theorem sampleSha256_cases (text : String) :
    (text = localeChangedText ∧ sampleSha256 text =
      "c10977951dc07bac23770a60d6bb6af2e348630a7244eb7921c85fe2c024f58f") ∨
    (text = orgCreatedText ∧ sampleSha256 text =
      "741b7774e5f5183e1315e5e86e219002d96c6473aaaceca96172593b5d44ee67") ∨
    sampleSha256 text = "#" ++ text := by
  unfold sampleSha256
  split
  · next h => exact .inl ⟨h, rfl⟩
  split
  · next h => exact .inr (.inl ⟨h, rfl⟩)
  · exact .inr (.inr rfl)

/-- The texts without a digest are told by their first character. -/
theorem ne_hash_append {digest : String} (h : digest.toList.head? ≠ some '#') (text : String) :
    digest ≠ "#" ++ text := by
  intro heq
  rw [heq, String.toList_append] at h
  exact h rfl

theorem sampleSha256_injective : Function.Injective sampleSha256 := by
  intro a b h
  rcases sampleSha256_cases a with ⟨ha, hda⟩ | ⟨ha, hda⟩ | hda <;>
    rcases sampleSha256_cases b with ⟨hb, hdb⟩ | ⟨hb, hdb⟩ | hdb <;> rw [hda, hdb] at h
  · rw [ha, hb]
  · exact absurd h (by decide)
  · exact absurd h (ne_hash_append (by decide) b)
  · exact absurd h (by decide)
  · rw [ha, hb]
  · exact absurd h (ne_hash_append (by decide) b)
  · exact absurd h.symm (ne_hash_append (by decide) a)
  · exact absurd h.symm (ne_hash_append (by decide) a)
  · have hchars := congrArg String.toList h
    rw [String.toList_append, String.toList_append] at hchars
    exact String.toList_inj.1 (List.append_cancel_left hchars)

theorem sampleSha256_ne_genesis (text : String) : sampleSha256 text ≠ GENESIS_HASH := by
  rcases sampleSha256_cases text with ⟨_, hd⟩ | ⟨_, hd⟩ | hd <;> rw [hd]
  · decide
  · decide
  · exact (ne_hash_append (by decide) text).symm

def localeRow : AuditRow := auditRow sampleSha256 localeChanged GENESIS_HASH 1

def orgRow : AuditRow := auditRow sampleSha256 orgCreated (digestOf sampleSha256 localeRow) 2

def sampleLog : AuditLog := ⟨[orgRow, localeRow], by decide⟩

/-- The row of a backup that wrote the keys of the payload the other way round. -/
def restoredLocaleRow : AuditRow :=
  { localeRow with
    sequence := 4
    metadata := ⟨.obj [("locale", .str "fr"), ("userId", .str "u1")], by decide⟩ }

def restoredOrgRow : AuditRow :=
  auditRow sampleSha256 orgCreated (digestOf sampleSha256 localeRow) 9

def restoredLog : AuditLog := ⟨[restoredLocaleRow, restoredOrgRow], by decide⟩

theorem digestOf_restored :
    digestOf sampleSha256 restoredLocaleRow = digestOf sampleSha256 localeRow :=
  computeAuditHash_congr sampleSha256 (hashInputOf localeRow) (by decide)

theorem last_hash_fixes_sampleLog :
    SameEnd sampleSha256 sampleLog restoredLog ∧ Agree sampleLog restoredLog := by
  have hrows : hashedRows sampleLog = [localeRow, orgRow] := rfl
  have hrestored : hashedRows restoredLog = [restoredLocaleRow, restoredOrgRow] := rfl
  have hend : SameEnd sampleSha256 sampleLog restoredLog := by
    refine ⟨?_, ?_, ?_⟩
    · rw [verified_iff, hrows]
      exact ⟨rfl, digestOf_auditRow _ _ _, rfl, digestOf_auditRow _ _ _, trivial⟩
    · rw [verified_iff, hrestored]
      exact ⟨rfl, congrArg some digestOf_restored.symm, congrArg some digestOf_restored.symm,
        digestOf_auditRow _ _ _, trivial⟩
    · rw [hrows, hrestored]
      rfl
  have hunblank : UnblankLog sampleLog := by
    rw [UnblankLog, hrows, List.forall_mem_cons, List.forall_mem_singleton]
    exact ⟨rfl, rfl⟩
  exact ⟨hend, (last_hash_fixes_log_iff sampleSha256_injective sampleSha256_ne_genesis
    sampleLog).2.2 (fun _ => hunblank) restoredLog hend⟩

/-! ## A token without an expiry -/

/-- What `api_token.created` says of a token, with its expiry as it is read. -/
def tokenPayload (expiresAt : JsValue) : JsValue :=
  .obj [("userId", .str "u1"), ("actorUserId", .str "u1"), ("organizationId", .str "o1"),
    ("tokenId", .str "t1"), ("name", .str "ci"), ("scopes", .arr []), ("expiresAt", expiresAt)]

def tokenCreated : DeliveredEvent where
  eventId := "e3"
  eventType := "api_token.created"
  aggregateType := "api_token"
  aggregateId := "t1"
  organizationId := some "o1"
  requestId := some "r2"
  payload := ⟨tokenPayload .null, by decide⟩
  dateOccurred := ⟨1767603602000, by decide⟩

def tokenRow : AuditRow := auditRow sampleSha256 tokenCreated GENESIS_HASH 1

/-- The row after `jsonb_set(metadata, '{expiresAt}', '1e400')`. -/
def editedTokenRow : AuditRow :=
  { tokenRow with metadata := ⟨tokenPayload (.infinity false), by decide⟩ }

def tokenLog : AuditLog := ⟨[tokenRow], by decide⟩

def editedTokenLog : AuditLog := ⟨[editedTokenRow], by decide⟩

theorem canonicalize_tokenPayload :
    canonicalize (tokenPayload (.infinity false)) = canonicalize (tokenPayload .null) := by
  simp only [tokenPayload, canonicalize, canonicalizeFields]

theorem digestOf_editedTokenRow :
    digestOf sampleSha256 editedTokenRow = digestOf sampleSha256 tokenRow :=
  computeAuditHash_congr sampleSha256 (hashInputOf tokenRow) canonicalize_tokenPayload

/-- The edit changes neither the verification nor the final hash. -/
theorem edited_expiry_unseen :
    Function.Injective sampleSha256 ∧ (∀ text, sampleSha256 text ≠ GENESIS_HASH) ∧
      SameEnd sampleSha256 tokenLog editedTokenLog ∧ ¬ Agree tokenLog editedTokenLog := by
  have hrow : hashedRows tokenLog = [tokenRow] := rfl
  have hedited : hashedRows editedTokenLog = [editedTokenRow] := rfl
  refine ⟨sampleSha256_injective, sampleSha256_ne_genesis, ⟨?_, ?_, ?_⟩, fun hagree => ?_⟩
  · rw [verified_iff, hrow]
    exact ⟨rfl, digestOf_auditRow _ _ _, trivial⟩
  · rw [verified_iff, hedited]
    exact ⟨rfl, (digestOf_auditRow _ _ _).trans (congrArg some digestOf_editedTokenRow.symm),
      trivial⟩
  · rw [hrow, hedited]
    rfl
  · have hrows := hagree.2
    rw [hrow, hedited] at hrows
    cases hrows with
    | cons hsame _ =>
        have hleaves := isFinite_same hsame.metadata
        exact absurd hleaves (by decide)

end CleanStack.Audit
