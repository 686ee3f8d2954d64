import CleanStack.Email.DeliveryWorker

/-!
# The rows of a batch

What a request says of a row comes from columns no statement changes: its
`Mail`. Every statement but `assignBatch` leaves the mails of a batch as they
are, and `assignBatch` does where it neither takes a row out of a batch nor adds
one to a batch that has rows already.

Where a claim hands out every row it counts for a batch, and has counted all
the rows of the batch, a chunk of the batch is the batch.
-/

namespace CleanStack.Email

open CleanStack.Lib CleanStack.Drizzle CleanStack.Kit

structure Mail where
  id : String
  createdAt : Time
  entry : Except String BatchEntry

def mailOf (m : Mailer) (r : EmailRow) : Mail := ⟨r.id, r.createdAt, toEntry m r⟩

/-- The order of a claim, on mails. -/
def mailLe (a b : Mail) : Bool :=
  a.createdAt / 1000 < b.createdAt / 1000 ||
    (a.createdAt / 1000 = b.createdAt / 1000 && a.id ≤ b.id)

theorem mailLe_iff {a b : Mail} :
    mailLe a b = true ↔ a.createdAt / 1000 < b.createdAt / 1000 ∨
      (a.createdAt / 1000 = b.createdAt / 1000 ∧ a.id ≤ b.id) := by
  simp [mailLe]

theorem mailLe_total (a b : Mail) : mailLe a b = true ∨ mailLe b a = true := by
  rw [mailLe_iff, mailLe_iff]
  have hid := String.le_total a.id b.id
  rcases Nat.lt_trichotomy (a.createdAt / 1000) (b.createdAt / 1000) with h | h | h
  · exact .inl (.inl h)
  · rcases hid with hid | hid
    · exact .inl (.inr ⟨h, hid⟩)
    · exact .inr (.inr ⟨h.symm, hid⟩)
  · exact .inr (.inl h)

theorem mailLe_trans (a b c : Mail) (hab : mailLe a b = true) (hbc : mailLe b c = true) :
    mailLe a c = true := by
  rw [mailLe_iff] at hab hbc ⊢
  rcases hab with hab | ⟨hab, hida⟩ <;> rcases hbc with hbc | ⟨hbc, hidb⟩
  · exact .inl (hab.trans hbc)
  · exact .inl (hbc ▸ hab)
  · exact .inl (hab ▸ hbc)
  · exact .inr ⟨hab.trans hbc, String.le_trans hida hidb⟩

theorem id_eq_of_mailLe {a b : Mail} (hab : mailLe a b = true) (hba : mailLe b a = true) :
    a.id = b.id := by
  rw [mailLe_iff] at hab hba
  rcases hab with hab | ⟨hab, hida⟩ <;> rcases hba with hba | ⟨hba, hidb⟩
  · exact absurd hab (Nat.lt_asymm hba)
  · exact absurd hba (Nat.ne_of_gt hab)
  · exact absurd hab (Nat.ne_of_gt hba)
  · exact String.le_antisymm hida hidb

/-! ## The mails of a batch -/

def carriers (t : EmailTable) (batchKey : String) : List EmailRow :=
  t.rows.filter fun r => r.batchKey = some batchKey

def batchMails (m : Mailer) (t : EmailTable) (batchKey : String) : List Mail :=
  (carriers t batchKey).map (mailOf m)

section Rows

variable {m : Mailer} {t t' : EmailTable} {batchKey : String} {r r' : EmailRow}

theorem mem_carriers :
    r ∈ carriers t batchKey ↔ r ∈ t.rows ∧ r.batchKey = some batchKey := by
  simp [carriers]

theorem mem_batchMails {mail : Mail} :
    mail ∈ batchMails m t batchKey ↔
      ∃ r ∈ t.rows, r.batchKey = some batchKey ∧ mailOf m r = mail := by
  simp [batchMails, carriers, and_assoc]

theorem eq_of_mail (hr : r ∈ t.rows) (hr' : r' ∈ t.rows) (hid : r.id = r'.id) : r = r' :=
  Table.eq_of_key hr hr' hid

theorem nodup_ids (t : EmailTable) : (t.rows.map EmailRow.id).Nodup :=
  t.nodup

theorem nodup_batchMails (m : Mailer) (t : EmailTable) (batchKey : String) :
    ((batchMails m t batchKey).map Mail.id).Nodup := by
  have hids : (batchMails m t batchKey).map Mail.id =
      (carriers t batchKey).map EmailRow.id := by
    rw [batchMails, List.map_map]
    rfl
  rw [hids]
  exact (nodup_ids t).sublist (List.filter_sublist.map _)

/-- A list of rows from a claim, in the claim's order, each of them still in
the table under the same mail. -/
structure Listed (m : Mailer) (t : EmailTable) (rows : List EmailMessageRecord) : Prop where
  sorted : rows.Pairwise fun a b => claimedLe a.toEmailRow b.toEmailRow = true
  nodup : (rows.map fun r => r.id).Nodup
  mails : ∀ c ∈ rows, ∃ r ∈ t.rows, mailOf m r = mailOf m c.toEmailRow

theorem Listed.sublist {rows rows' : List EmailMessageRecord} (h : Listed m t rows)
    (hsub : rows'.Sublist rows) : Listed m t rows' :=
  ⟨h.sorted.sublist hsub, h.nodup.sublist (hsub.map _),
    fun c hc => h.mails c (hsub.subset hc)⟩

/-- The rows are the rows of the batch. -/
def IsBatch (m : Mailer) (t : EmailTable) (batchKey : String)
    (rows : List EmailMessageRecord) : Prop :=
  (rows.map fun r => mailOf m r.toEmailRow).Perm (batchMails m t batchKey)

theorem isBatch_of_ids {rows : List EmailMessageRecord} (h : Listed m t rows)
    (hids : ∀ r ∈ t.rows, r.batchKey = some batchKey ↔ r.id ∈ rows.map fun r => r.id) :
    IsBatch m t batchKey rows := by
  have hmails : ((rows.map fun r => mailOf m r.toEmailRow).map Mail.id).Nodup := by
    rw [List.map_map]
    exact h.nodup
  rw [IsBatch, List.perm_ext_iff_of_nodup hmails.of_map (nodup_batchMails m t batchKey).of_map]
  intro mail
  rw [mem_batchMails]
  constructor
  · intro hmail
    obtain ⟨c, hc, rfl⟩ := List.mem_map.1 hmail
    obtain ⟨r, hr, hsame⟩ := h.mails c hc
    have hid : r.id = c.id := congrArg Mail.id hsame
    exact ⟨r, hr, (hids r hr).2 (hid ▸ List.mem_map_of_mem hc), hsame⟩
  · rintro ⟨r, hr, hkey, rfl⟩
    obtain ⟨c, hc, hid⟩ := List.mem_map.1 ((hids r hr).1 hkey)
    obtain ⟨r₀, hr₀, hsame⟩ := h.mails c hc
    have hr₀r : r₀ = r := eq_of_mail hr₀ hr ((congrArg Mail.id hsame).trans hid)
    exact List.mem_map.2 ⟨c, hc, by rw [← hr₀r, hsame]⟩

theorem IsBatch.ids {rows : List EmailMessageRecord} (h : IsBatch m t batchKey rows)
    (hr : r ∈ t.rows) : r.batchKey = some batchKey ↔ r.id ∈ rows.map fun r => r.id := by
  constructor
  · intro hkey
    have hmem := h.mem_iff.2 (mem_batchMails.2 ⟨r, hr, hkey, rfl⟩)
    obtain ⟨c, hc, hsame⟩ := List.mem_map.1 hmem
    exact List.mem_map.2 ⟨c, hc, congrArg Mail.id hsame⟩
  · intro hid
    obtain ⟨c, hc, hid⟩ := List.mem_map.1 hid
    obtain ⟨r₀, hr₀, hkey, hsame⟩ := mem_batchMails.1 (h.mem_iff.1 (List.mem_map_of_mem hc))
    have hr₀r : r₀ = r := eq_of_mail hr₀ hr ((congrArg Mail.id hsame).trans hid)
    exact hr₀r ▸ hkey

/-! ## What a statement keeps -/

/-- No row has gone or changed its mail, and every batch that had rows has the
same ones. -/
structure Kept (m : Mailer) (t t' : EmailTable) : Prop where
  rows : ∀ r ∈ t.rows, ∃ r' ∈ t'.rows, mailOf m r' = mailOf m r
  batches : ∀ batchKey, batchMails m t batchKey ≠ [] →
    batchMails m t' batchKey = batchMails m t batchKey

/-- A batch is one chunk, and every row of it was rendered. -/
def Sendable (m : Mailer) (t : EmailTable) : Prop :=
  ∀ batchKey, (batchMails m t batchKey).length ≤ EMAIL_BATCH_CHUNK_SIZE ∧
    ∀ mail ∈ batchMails m t batchKey, ∃ entry, mail.entry = .ok entry

theorem Listed.kept {rows : List EmailMessageRecord} (h : Listed m t rows)
    (hkept : Kept m t t') : Listed m t' rows := by
  refine ⟨h.sorted, h.nodup, fun c hc => ?_⟩
  obtain ⟨r, hr, hsame⟩ := h.mails c hc
  obtain ⟨r', hr', hsame'⟩ := hkept.rows r hr
  exact ⟨r', hr', hsame'.trans hsame⟩

theorem IsBatch.kept {rows : List EmailMessageRecord} (h : IsBatch m t batchKey rows)
    (hne : rows ≠ []) (hkept : Kept m t t') : IsBatch m t' batchKey rows := by
  have hsome : batchMails m t batchKey ≠ [] := by
    intro hnil
    rw [IsBatch, hnil, List.perm_nil, List.map_eq_nil_iff] at h
    exact hne h
  rw [IsBatch, hkept.batches batchKey hsome]
  exact h

/-- The mails of every batch are as before. -/
structure SameBatches (m : Mailer) (t t' : EmailTable) : Prop where
  rows : ∀ r ∈ t.rows, ∃ r' ∈ t'.rows, mailOf m r' = mailOf m r
  batches : ∀ batchKey, batchMails m t' batchKey = batchMails m t batchKey

theorem SameBatches.kept (h : SameBatches m t t') : Kept m t t' :=
  ⟨h.rows, fun batchKey _ => h.batches batchKey⟩

theorem SameBatches.sendable (h : SameBatches m t t') (hs : Sendable m t) :
    Sendable m t' := by
  intro batchKey
  rw [h.batches batchKey]
  exact hs batchKey

theorem SameBatches.refl (m : Mailer) (t : EmailTable) : SameBatches m t t :=
  ⟨fun r hr => ⟨r, hr, rfl⟩, fun _ => rfl⟩

/-- An update that neither changes a mail nor moves a row into or out of the
batch. -/
theorem batchMails_update {p : EmailRow → Bool} {f : EmailRow → EmailRow}
    (hf : ∀ r, Keyed.key (f r) = Keyed.key r) (hmail : ∀ r, mailOf m (f r) = mailOf m r)
    (hbatch : ∀ r ∈ t.rows, p r = true →
      ((f r).batchKey = some batchKey ↔ r.batchKey = some batchKey)) :
    batchMails m (t.update p f hf) batchKey = batchMails m t batchKey := by
  have hmail' : ∀ r, mailOf m (if p r then f r else r) = mailOf m r := by
    intro r
    split
    · exact hmail r
    · rfl
  have hbatch' : ∀ r ∈ t.rows, decide ((if p r then f r else r).batchKey = some batchKey) =
      decide (r.batchKey = some batchKey) := by
    intro r hr
    rw [decide_eq_decide]
    split
    · next hp => exact hbatch r hr hp
    · rfl
  rw [batchMails, batchMails, carriers, carriers, Table.update, List.filter_map, List.map_map]
  simp only [Function.comp_def, hmail', List.filter_congr hbatch']

theorem rows_update {p : EmailRow → Bool} {f : EmailRow → EmailRow}
    (hf : ∀ r, Keyed.key (f r) = Keyed.key r) (hmail : ∀ r, mailOf m (f r) = mailOf m r)
    (hr : r ∈ t.rows) : ∃ r' ∈ (t.update p f hf).rows, mailOf m r' = mailOf m r := by
  refine ⟨_, Table.mem_update_of_mem hr p hf, ?_⟩
  split
  · exact hmail r
  · rfl

theorem sameBatches_update {p : EmailRow → Bool} {f : EmailRow → EmailRow}
    (hf : ∀ r, Keyed.key (f r) = Keyed.key r) (hmail : ∀ r, mailOf m (f r) = mailOf m r)
    (hbatch : ∀ r, (f r).batchKey = r.batchKey) : SameBatches m t (t.update p f hf) :=
  ⟨fun _ hr => rows_update hf hmail hr,
    fun _ => batchMails_update hf hmail fun r _ _ => by rw [hbatch r]⟩

theorem sameBatches_insert {row : EmailRow} (h : t.insert row = some t')
    (hrow : row.batchKey = none) : SameBatches m t t' := by
  refine ⟨fun r hr => ⟨r, (Table.mem_insert h).2 (.inr hr), rfl⟩, fun batchKey => ?_⟩
  unfold Table.insert at h
  split at h
  · cases h
  · cases h
    simp [batchMails, carriers, hrow]

/-! ## The statements of a drain -/

theorem sameBatches_failureChanges {now : Time} {ls : List LeaseKey} {failure : EmailFailure} :
    SameBatches m t (markFailed t now ls failure).1 :=
  sameBatches_update (failureChanges_id now failure) (fun _ => by cases failure <;> rfl)
    fun _ => by cases failure <;> rfl

theorem sameBatches_runStatement {now : Time} {c : Call}
    (h : ∀ chunk entries key, c ≠ .assignBatch chunk entries key) :
    SameBatches m t (runStatement m t now c).1 := by
  cases c with
  | release rows delaySeconds =>
      exact sameBatches_update (f := postponedSet now delaySeconds) (fun _ => rfl)
        (fun _ => rfl) fun _ => rfl
  | settleFailures rows failure =>
      simp only [runStatement, settleFailures]
      cases failure with
      | failed lastError => exact sameBatches_failureChanges
      | pending lastError retryAfterSeconds => exact sameBatches_failureChanges
      | dead lastError retryAfterSeconds => exact sameBatches_failureChanges
  | assignBatch chunk entries key => exact absurd rfl (h chunk entries key)
  | batchSend chunk entries key => exact SameBatches.refl m t
  | markSent rows providerIds =>
      exact sameBatches_update (f := sentSet now providerIds) (fun _ => rfl)
        (fun _ => rfl) fun _ => rfl

theorem mem_ids_of_leased {chunk : List EmailMessageRecord}
    (h : leasedAll (leases chunk) r = true) : r.id ∈ chunk.map fun c => c.id := by
  obtain ⟨-, c, hc, hid, -⟩ := exists_of_leasedAll h
  exact List.mem_map.2 ⟨c, hc, hid⟩

/-- Writing the key takes no row out of the batch it is in, and adds no row to
a batch that has rows. -/
def KeepsBatches (t : EmailTable) (chunk : List EmailMessageRecord) (batchKey : String) :
    Prop :=
  (∀ r ∈ t.rows, leasedAll (leases chunk) r = true →
    r.batchKey = none ∨ r.batchKey = some batchKey) ∧
  ((∀ r ∈ t.rows, r.batchKey ≠ some batchKey) ∨
    ∀ r ∈ t.rows, r.batchKey = some batchKey ↔ r.id ∈ chunk.map fun c => c.id)

/-- A chunk that is the batch already may write its key. -/
theorem IsBatch.keepsBatches {chunk : List EmailMessageRecord}
    (h : IsBatch m t batchKey chunk) : KeepsBatches t chunk batchKey :=
  ⟨fun _ hr hheld => .inr ((h.ids hr).2 (mem_ids_of_leased hheld)), .inr fun _ hr => h.ids hr⟩

section Assign

variable {chunk : List EmailMessageRecord}

def withBatchKey (batchKey : String) (r : EmailRow) : EmailRow :=
  { r with batchKey := some batchKey }

theorem assignBatch_eq (t : EmailTable) (ls : List LeaseKey) (batchKey : String) :
    (assignBatch t ls batchKey).1 =
      t.update (leasedAll ls) (withBatchKey batchKey) fun _ => rfl :=
  rfl

theorem mem_assignBatch {ls : List LeaseKey} :
    r' ∈ (assignBatch t ls batchKey).1.rows ↔
      ∃ r ∈ t.rows, r' = if leasedAll ls r then withBatchKey batchKey r else r := by
  rw [assignBatch_eq]
  exact Table.mem_update _

/-- A row that carries a key after the statement had it before, or was written. -/
theorem batchKey_assigned {key : String}
    (hr' : r' ∈ (assignBatch t (leases chunk) batchKey).1.rows)
    (hkey : r'.batchKey = some key) :
    ∃ r ∈ t.rows, mailOf m r' = mailOf m r ∧ (r.batchKey = some key ∨
      (key = batchKey ∧ leasedAll (leases chunk) r = true)) := by
  obtain ⟨r, hr, rfl⟩ := mem_assignBatch.1 hr'
  by_cases hheld : leasedAll (leases chunk) r = true
  · rw [if_pos hheld] at hkey ⊢
    exact ⟨r, hr, rfl, .inr ⟨(Option.some.inj hkey).symm, hheld⟩⟩
  · rw [if_neg hheld] at hkey ⊢
    exact ⟨r, hr, rfl, .inl hkey⟩

theorem kept_assignBatch (h : KeepsBatches t chunk batchKey) :
    Kept m t (assignBatch t (leases chunk) batchKey).1 := by
  rw [assignBatch_eq]
  refine ⟨fun r hr => rows_update (f := withBatchKey batchKey) (fun _ => rfl) (fun _ => rfl) hr,
    fun key hne => ?_⟩
  refine batchMails_update (f := withBatchKey batchKey) (fun _ => rfl) (fun _ => rfl)
    fun r hr hheld => ?_
  show some batchKey = some key ↔ r.batchKey = some key
  rcases h.1 r hr hheld with hnone | hsome
  · -- the row gets a key; a batch that has rows already has this one
    have hnew : batchKey ≠ key := by
      rintro rfl
      rcases h.2 with hfresh | hsame
      · refine hne (List.eq_nil_iff_forall_not_mem.2 fun mail hmail => ?_)
        obtain ⟨r₀, hr₀, hkey, -⟩ := mem_batchMails.1 hmail
        exact hfresh r₀ hr₀ hkey
      · have := (hsame r hr).2 (mem_ids_of_leased hheld)
        rw [hnone] at this
        cases this
    simp [hnone, hnew]
  · rw [hsome]

theorem id_mem_of_assigned (m : Mailer) (h : KeepsBatches t chunk batchKey)
    (hr' : r' ∈ (assignBatch t (leases chunk) batchKey).1.rows)
    (hkey : r'.batchKey = some batchKey) : r'.id ∈ chunk.map fun c => c.id := by
  obtain ⟨r, hr, hmail, hcases⟩ := batchKey_assigned (m := m) hr' hkey
  have hid : r'.id = r.id := congrArg Mail.id hmail
  rw [hid]
  rcases hcases with hbefore | ⟨-, hheld⟩
  · rcases h.2 with hfresh | hsame
    · exact absurd hbefore (hfresh r hr)
    · exact (hsame r hr).1 hbefore
  · exact mem_ids_of_leased hheld

theorem sendable_assignBatch (hs : Sendable m t) (h : KeepsBatches t chunk batchKey)
    (hlisted : Listed m t chunk) (hsize : chunk.length ≤ EMAIL_BATCH_CHUNK_SIZE)
    (hrender : ∀ c ∈ chunk, ∃ entry, toEntry m c.toEmailRow = .ok entry) :
    Sendable m (assignBatch t (leases chunk) batchKey).1 := by
  intro key
  by_cases hnew : batchMails m t key = []
  · -- a batch that had no rows has some of the chunk's
    have hmem : ∀ mail ∈ batchMails m (assignBatch t (leases chunk) batchKey).1 key,
        mail ∈ chunk.map fun c => mailOf m c.toEmailRow := by
      intro mail hmail
      obtain ⟨r', hr', hkey, rfl⟩ := mem_batchMails.1 hmail
      obtain ⟨r, hr, hsame, hbefore | ⟨-, hheld⟩⟩ := batchKey_assigned (m := m) hr' hkey
      · exact absurd (mem_batchMails.2 ⟨r, hr, hbefore, rfl⟩) (by rw [hnew]; exact List.not_mem_nil)
      · obtain ⟨c, hc, hid⟩ := List.mem_map.1 (mem_ids_of_leased hheld)
        obtain ⟨r₀, hr₀, hmail₀⟩ := hlisted.mails c hc
        have hr₀r : r₀ = r := eq_of_mail hr₀ hr ((congrArg Mail.id hmail₀).trans hid)
        exact List.mem_map.2 ⟨c, hc, by rw [hsame, ← hr₀r, hmail₀]⟩
    refine ⟨?_, fun mail hmail => ?_⟩
    · have hnodup := (nodup_batchMails m (assignBatch t (leases chunk) batchKey).1 key).of_map
      have hle := (List.subperm_of_subset hnodup hmem).length_le
      rw [List.length_map] at hle
      exact hle.trans hsize
    · obtain ⟨c, hc, rfl⟩ := List.mem_map.1 (hmem mail hmail)
      exact hrender c hc
  · rw [(kept_assignBatch h).batches key hnew]
    exact hs key

/-- The leases the statement returns are as many as the chunk's rows, so it
wrote every row of the chunk. -/
theorem leased_of_assigned {outcome : Outcome}
    (ha : assigned t chunk batchKey outcome = true) (hr : r ∈ t.rows)
    (hid : r.id ∈ chunk.map fun c => c.id) : leasedAll (leases chunk) r = true := by
  have hlen := of_decide_eq_true (Bool.and_eq_true_iff.1 ha).2
  have hwritten : (assignBatch t (leases chunk) batchKey).2.map LeaseKey.id =
      (t.rows.filter (leasedAll (leases chunk))).map EmailRow.id := by
    simp [assignBatch, updateLeased, Table.returning, Function.comp_def]
  have hids : ((t.rows.filter (leasedAll (leases chunk))).map EmailRow.id).Nodup :=
    (nodup_ids t).sublist (List.filter_sublist.map _)
  have hsub : (t.rows.filter (leasedAll (leases chunk))).map EmailRow.id ⊆
      chunk.map fun c => c.id := by
    intro id hid
    obtain ⟨r, hr, rfl⟩ := List.mem_map.1 hid
    exact mem_ids_of_leased (List.mem_filter.1 hr).2
  have hperm := (List.subperm_of_subset hids hsub).perm_of_length_le (by
    rw [← hwritten, List.length_map, List.length_map]
    exact hlen)
  obtain ⟨r₀, hr₀, hid₀⟩ := List.mem_map.1 (hperm.mem_iff.2 hid)
  obtain ⟨hr₀, hheld⟩ := List.mem_filter.1 hr₀
  exact eq_of_mail hr₀ hr hid₀ ▸ hheld

theorem isBatch_of_assigned {outcome : Outcome} (hlisted : Listed m t chunk)
    (h : KeepsBatches t chunk batchKey) (ha : assigned t chunk batchKey outcome = true) :
    IsBatch m (assignBatch t (leases chunk) batchKey).1 batchKey chunk := by
  refine isBatch_of_ids (hlisted.kept (kept_assignBatch h)) fun r' hr' =>
    ⟨id_mem_of_assigned m h hr', fun hid => ?_⟩
  obtain ⟨r, hr, rfl⟩ := mem_assignBatch.1 hr'
  have hid' : r.id ∈ chunk.map fun c => c.id := by
    split at hid
    · exact hid
    · exact hid
  rw [if_pos (leased_of_assigned ha hr hid')]
  rfl

end Assign

end Rows

/-! ## The claim -/

/-- How many rows of a batch a claim hands out. -/
def handedOut (t : EmailTable) (now : Time) (locked : String → Bool)
    (req : EmailClaimRequest) (batchKey : String) : Nat :=
  (t.rows.filter fun r =>
    r.batchKey = some batchKey && claimPicked t now locked req r).length

/-- A batch of which the claim hands out some rows, and no fewer than it counts,
has every row counted. -/
def CountsWhole (t : EmailTable) (now : Time) (locked : String → Bool)
    (req : EmailClaimRequest) : Prop :=
  ∀ batchKey, 0 < handedOut t now locked req batchKey →
    unsettledIn t now req batchKey ≤ handedOut t now locked req batchKey →
    ∀ r ∈ t.rows, r.batchKey = some batchKey → replayable now req r = true

section Claim

variable {m : Mailer} {t : EmailTable} {now : Time} {locked : String → Bool}
  {req : EmailClaimRequest} {batchKey : String}

theorem claimedLe_total (a b : EmailRow) : claimedLe a b = true ∨ claimedLe b a = true :=
  mailLe_total ⟨a.id, a.createdAt, .error ""⟩ ⟨b.id, b.createdAt, .error ""⟩

theorem claimedLe_trans (a b c : EmailRow) (hab : claimedLe a b = true)
    (hbc : claimedLe b c = true) : claimedLe a c = true :=
  mailLe_trans ⟨a.id, a.createdAt, .error ""⟩ ⟨b.id, b.createdAt, .error ""⟩
    ⟨c.id, c.createdAt, .error ""⟩ hab hbc

theorem sameBatches_claim : SameBatches m t (claim t now locked req).1 :=
  sameBatches_update (f := claimedSet now req.leaseSeconds)
    (key_claimedSet now req.leaseSeconds) (fun _ => rfl) fun _ => rfl

theorem listed_claim : Listed m (claim t now locked req).1 (claim t now locked req).2 := by
  refine ⟨?_, ?_, fun c hc => ?_⟩
  · have hsorted := orderBy_pairwise claimedLe_total claimedLe_trans
      (t.returning (claimPicked t now locked req) (claimedSet now req.leaseSeconds))
    rw [← claim_rows, List.pairwise_map] at hsorted
    exact hsorted
  · exact nodup_claim
  · exact ⟨c.toEmailRow, mem_table_of_claim hc, rfl⟩

/-- The rows a claim hands out of one batch. -/
theorem length_batchOf : ((claim t now locked req).2.filter fun r =>
    r.batchKey = some batchKey).length = handedOut t now locked req batchKey := by
  have hlen : ((claim t now locked req).2.filter fun r => r.batchKey = some batchKey).length =
      (((claim t now locked req).2.map EmailMessageRecord.toEmailRow).filter fun r =>
        r.batchKey = some batchKey).length := by
    rw [List.filter_map, List.length_map]
    rfl
  rw [hlen, claim_rows, ((orderBy_perm _ _).filter _).length_eq, Table.returning,
    List.filter_map, List.length_map, List.filter_filter, handedOut]
  rfl

theorem unsettledInBatch_getD {r : EmailRow} (hkey : r.batchKey = some batchKey) :
    (unsettledInBatch t now req r).getD 0 = unsettledIn t now req batchKey := by
  rw [unsettledInBatch, hkey, Option.bind_some]
  dsimp only
  split
  · next hzero => exact hzero.symm
  · rfl

/-- A group of a batch that is whole by its count is the batch. -/
theorem isBatch_of_whole (hcount : CountsWhole t now locked req)
    {group : List EmailMessageRecord}
    (hgroup : group = (claim t now locked req).2.filter fun r => r.batchKey = some batchKey)
    (hne : group ≠ []) (hwhole : isWholeBatch group = true) :
    IsBatch m (claim t now locked req).1 batchKey group := by
  have hlen : group.length = handedOut t now locked req batchKey := by
    rw [hgroup, length_batchOf]
  have hle : unsettledIn t now req batchKey ≤ handedOut t now locked req batchKey := by
    obtain ⟨c, hc⟩ := List.exists_mem_of_ne_nil group hne
    have hcmem := hc
    rw [hgroup, List.mem_filter] at hcmem
    obtain ⟨-, -, -, -, hcounted⟩ := mem_claim hcmem.1
    have hle := of_decide_eq_true (List.all_eq_true.1 hwhole c hc)
    rwa [hcounted, unsettledInBatch_getD (of_decide_eq_true hcmem.2), hlen] at hle
  have hall := hcount batchKey (hlen ▸ List.length_pos_of_ne_nil hne) hle
  have hpicked : ∀ r ∈ carriers t batchKey, claimPicked t now locked req r = true := by
    have hcounted : unsettledIn t now req batchKey = (carriers t batchKey).length := by
      rw [unsettledIn, carriers]
      congr 1
      refine List.filter_congr fun r hr => ?_
      by_cases hkey : r.batchKey = some batchKey
      · simp [hkey, hall r hr hkey]
      · simp [hkey]
    have hfilter : handedOut t now locked req batchKey =
        ((carriers t batchKey).filter (claimPicked t now locked req)).length := by
      rw [handedOut, carriers, List.filter_filter]
      simp only [Bool.and_comm]
    rw [hcounted, hfilter] at hle
    exact List.length_filter_eq_length_iff.1
      (Nat.le_antisymm (List.length_filter_le _ _) hle)
  refine isBatch_of_ids ?_ fun r' hr' => ?_
  · rw [hgroup]
    exact listed_claim.sublist List.filter_sublist
  constructor
  · intro hkey
    obtain ⟨r, hr, rfl⟩ := (Table.mem_update (key_claimedSet now req.leaseSeconds)).1 hr'
    have hkey' : r.batchKey = some batchKey := by
      split at hkey
      · exact hkey
      · exact hkey
    have hp := hpicked r (mem_carriers.2 ⟨hr, hkey'⟩)
    rw [if_pos hp] at hkey ⊢
    have hmem : claimedSet now req.leaseSeconds r ∈
        (claim t now locked req).2.map EmailMessageRecord.toEmailRow := by
      rw [claim_rows, mem_orderBy]
      exact Table.mem_returning.2 ⟨r, hr, hp, rfl⟩
    obtain ⟨c, hc, hcr⟩ := List.mem_map.1 hmem
    refine List.mem_map.2 ⟨c, ?_, by rw [← hcr]⟩
    rw [hgroup, List.mem_filter]
    exact ⟨hc, decide_eq_true (by rw [hcr]; exact hkey)⟩
  · intro hid
    obtain ⟨c, hc, hid⟩ := List.mem_map.1 hid
    rw [hgroup, List.mem_filter] at hc
    have hc' : c.toEmailRow = r' := eq_of_mail (mem_table_of_claim hc.1) hr' hid
    exact hc' ▸ of_decide_eq_true hc.2

end Claim

end CleanStack.Email
