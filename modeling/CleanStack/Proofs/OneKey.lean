import CleanStack.Proofs.BatchRows

/-!
# One key for each row

A chunk is either of rows that carry no batch key, or the whole of a batch.
What was sent under a batch key is then the batch, in the order of a claim: two
requests with a row in common are under the same batch key, say the same, and
so carry the same idempotency key.

Two steps can break this. A claim counts the rows of a batch that can still be
sent, not its rows, so it can take a part for the whole; and a worker that
computes a key may write it over the key that another worker has given the row
since, the lease of the two being the same after a release.
-/

namespace CleanStack.Email

open CleanStack.Lib CleanStack.Drizzle CleanStack.Kit CleanStack.Outbox

section Chunks

variable {m : Mailer} {t t' : EmailTable}

/-! ## Groups and slices -/

theorem groupKey_eq_batch {r : EmailMessageRecord} {key : String} :
    groupKey r = "batch:" ++ key ↔ r.batchKey = some key := by
  unfold groupKey
  split
  · next batchKey hkey => rw [hkey, String.append_right_inj, Option.some.injEq]
  · next hkey =>
      rw [hkey]
      refine ⟨fun h => ?_, nofun⟩
      have hchars := congrArg String.toList h
      cases hkind : r.kind with
      | template => simp [hkind, MessageKind.text] at hchars
      | raw => simp [hkind, MessageKind.text] at hchars

theorem chunksOf_sublist {group chunk : List EmailMessageRecord} (h : chunk ∈ chunksOf group) :
    chunk.Sublist group ∧ chunk.length ≤ EMAIL_BATCH_CHUNK_SIZE := by
  obtain ⟨i, -, rfl⟩ := List.mem_map.1 h
  exact ⟨(List.take_sublist _ _).trans (List.drop_sublist _ _), List.length_take_le _ _⟩

theorem chunksOf_eq_singleton {group : List EmailMessageRecord} (hne : group ≠ [])
    (h : group.length ≤ EMAIL_BATCH_CHUNK_SIZE) : chunksOf group = [group] := by
  have hpos := List.length_pos_of_ne_nil hne
  have hone : (group.length + (EMAIL_BATCH_CHUNK_SIZE - 1)) / EMAIL_BATCH_CHUNK_SIZE = 1 := by
    simp only [EMAIL_BATCH_CHUNK_SIZE] at h ⊢
    omega
  rw [chunksOf, hone]
  simp [List.take_of_length_le h]

theorem mem_groupRows {rows group : List EmailMessageRecord} (h : group ∈ groupRows rows) :
    group ≠ [] ∧ group.Sublist rows ∧ ∀ c ∈ group, ∀ key, c.batchKey = some key →
      group = rows.filter fun r => r.batchKey = some key := by
  obtain ⟨p, hp, rfl⟩ := List.mem_map.1 h
  obtain ⟨hgroup, hne⟩ := mem_groupsOf hp
  refine ⟨hne, hgroup ▸ List.filter_sublist, fun c hc key hkey => ?_⟩
  rw [hgroup, List.mem_filter] at hc
  have hp1 : p.1 = "batch:" ++ key :=
    (of_decide_eq_true hc.2).symm.trans (groupKey_eq_batch.2 hkey)
  rw [hgroup, hp1]
  exact List.filter_congr fun r _ => decide_eq_decide.2 groupKey_eq_batch

/-! ## Chunks -/

/-- Rows without a batch key, or a batch. -/
structure ChunkOk (m : Mailer) (t : EmailTable) (chunk : List EmailMessageRecord) : Prop where
  listed : Listed m t chunk
  size : chunk.length ≤ EMAIL_BATCH_CHUNK_SIZE
  batch : ∀ c ∈ chunk, ∀ key, c.batchKey = some key → IsBatch m t key chunk

theorem ChunkOk.kept {chunk : List EmailMessageRecord} (h : ChunkOk m t chunk)
    (hkept : Kept m t t') : ChunkOk m t' chunk :=
  ⟨h.listed.kept hkept, h.size, fun c hc key hkey =>
    (h.batch c hc key hkey).kept (List.ne_nil_of_mem hc) hkept⟩

def Renders (m : Mailer) (chunk : List EmailMessageRecord) (entries : List BatchEntry) :
    Prop :=
  chunk.map (fun c => toEntry m c.toEmailRow) = entries.map Except.ok

theorem Renders.mem {chunk : List EmailMessageRecord} {entries : List BatchEntry}
    (h : Renders m chunk entries) : ∀ c ∈ chunk, ∃ entry, toEntry m c.toEmailRow = .ok entry := by
  intro c hc
  have hmem : toEntry m c.toEmailRow ∈ entries.map Except.ok :=
    h ▸ List.mem_map_of_mem hc
  obtain ⟨entry, -, heq⟩ := List.mem_map.1 hmem
  exact ⟨entry, heq.symm⟩

theorem renders_rendered (m : Mailer) (claimed : List EmailMessageRecord) :
    Renders m ((rendered m claimed).map Prod.fst) ((rendered m claimed).map Prod.snd) := by
  rw [Renders, List.map_map, List.map_map]
  refine List.map_congr_left fun p hp => ?_
  obtain ⟨r, -, hr⟩ := List.mem_filterMap.1 hp
  obtain ⟨entry, hentry, rfl⟩ := Option.map_eq_some_iff.1 hr
  show toEntry m r.toEmailRow = .ok entry
  cases hto : toEntry m r.toEmailRow with
  | error message =>
      rw [hto] at hentry
      cases hentry
  | ok e =>
      rw [hto] at hentry
      rw [Option.some.inj hentry]

theorem rendered_sublist (m : Mailer) (claimed : List EmailMessageRecord) :
    ((rendered m claimed).map Prod.fst).Sublist claimed := by
  induction claimed with
  | nil => exact List.Sublist.slnil
  | cons r rest ih =>
      rw [rendered, List.filterMap_cons]
      cases hto : toEntry m r.toEmailRow with
      | error message => exact ih.cons r
      | ok entry => exact ih.cons_cons r

theorem rendered_eq_self {claimed : List EmailMessageRecord}
    (h : ∀ c ∈ claimed, ∃ entry, toEntry m c.toEmailRow = .ok entry) :
    (rendered m claimed).map Prod.fst = claimed := by
  induction claimed with
  | nil => rfl
  | cons r rest ih =>
      obtain ⟨entry, hentry⟩ := h r List.mem_cons_self
      have hrest := ih fun c hc => h c (List.mem_cons_of_mem _ hc)
      rw [rendered, List.filterMap_cons, hentry]
      exact congrArg (r :: ·) hrest

/-- Of a batch every row is rendered, so the chunk that is sent is the one that
was claimed. -/
theorem chunkOk_rendered {claimed : List EmailMessageRecord} (hs : Sendable m t)
    (h : ChunkOk m t claimed) : ChunkOk m t ((rendered m claimed).map Prod.fst) := by
  by_cases hkeyed : ∃ c ∈ claimed, ∃ key, c.batchKey = some key
  · obtain ⟨c, hc, key, hkey⟩ := hkeyed
    have hbatch := h.batch c hc key hkey
    rw [rendered_eq_self fun c hc =>
      (hs key).2 _ (hbatch.mem_iff.1 (List.mem_map_of_mem hc))]
    exact h
  · have hsub := rendered_sublist m claimed
    exact ⟨h.listed.sublist hsub, hsub.length_le.trans h.size, fun c hc key hkey =>
      absurd ⟨c, hsub.subset hc, key, hkey⟩ hkeyed⟩

/-- What a claim leaves to send are chunks. -/
theorem chunkOk_drainOf {now : Time} {locked : String → Bool} {req : EmailClaimRequest}
    {options : EmailDeliveryOptions} (hs : Sendable m (claim t now locked req).1)
    (hcount : CountsWhole t now locked req) {chunk : List EmailMessageRecord}
    (h : chunk ∈ (drainOf options (claim t now locked req).2).chunks) :
    ChunkOk m (claim t now locked req).1 chunk := by
  obtain ⟨group, hgroup, hchunk⟩ := List.mem_flatMap.1 h
  obtain ⟨hgroup, hwhole⟩ := List.mem_filter.1 hgroup
  obtain ⟨hne, hsub, hkeyed⟩ := mem_groupRows hgroup
  obtain ⟨hslice, hsize⟩ := chunksOf_sublist hchunk
  refine ⟨listed_claim.sublist (hslice.trans hsub), hsize, fun c hc key hkey => ?_⟩
  have hbatch : IsBatch m (claim t now locked req).1 key group :=
    isBatch_of_whole hcount (hkeyed c (hslice.subset hc) key hkey) hne hwhole
  have hlen : group.length ≤ EMAIL_BATCH_CHUNK_SIZE := by
    have := hbatch.length_eq
    rw [List.length_map] at this
    exact this ▸ (hs key).1
  rw [chunksOf_eq_singleton hne hlen, List.mem_singleton] at hchunk
  exact hchunk ▸ hbatch

end Chunks

/-! ## The run -/

section Run

variable {m : Mailer} {t t' : EmailTable} {s s' : MailState}

def CallOk (m : Mailer) (t : EmailTable) : Call → Prop
  | .assignBatch chunk entries key =>
      ChunkOk m t chunk ∧ chunk ≠ [] ∧ Renders m chunk entries ∧ key = batchKeyOf m chunk
  | .batchSend chunk entries key =>
      Listed m t chunk ∧ IsBatch m t key chunk ∧ chunk ≠ [] ∧ Renders m chunk entries
  | _ => True

theorem CallOk.kept {c : Call} (h : CallOk m t c) (hkept : Kept m t t') : CallOk m t' c := by
  cases c with
  | assignBatch chunk entries key => exact ⟨h.1.kept hkept, h.2⟩
  | batchSend chunk entries key =>
      exact ⟨h.1.kept hkept, h.2.1.kept h.2.2.1 hkept, h.2.2⟩
  | release rows delaySeconds => trivial
  | settleFailures rows failure => trivial
  | markSent rows providerIds => trivial

structure DrainOk (m : Mailer) (t : EmailTable) (d : Drain) : Prop where
  calls : ∀ c ∈ d.calls, CallOk m t c
  chunks : ∀ chunk ∈ d.chunks, ChunkOk m t chunk

theorem DrainOk.kept {d : Drain} (h : DrainOk m t d) (hkept : Kept m t t') :
    DrainOk m t' d :=
  ⟨fun c hc => (h.calls c hc).kept hkept, fun chunk hchunk => (h.chunks chunk hchunk).kept hkept⟩

/-- The request carried a batch, under its key. -/
def SendOk (m : Mailer) (t : EmailTable) (send : ProviderSend) : Prop :=
  ∃ key chunk, Listed m t chunk ∧ IsBatch m t key chunk ∧ chunk ≠ [] ∧
    Renders m chunk send.entries ∧
    send.idempotencyKey = chunkIdempotencyKey m key send.entries ∧
    send.ids = chunk.map (fun c => c.id) ∧ send.accepted.Sublist send.ids ∧
    send.unanswered.Sublist send.ids

theorem SendOk.kept {send : ProviderSend} (h : SendOk m t send) (hkept : Kept m t t') :
    SendOk m t' send := by
  obtain ⟨key, chunk, hlisted, hbatch, hne, hrest⟩ := h
  exact ⟨key, chunk, hlisted.kept hkept, hbatch.kept hne hkept, hne, hrest⟩

structure MailOk (m : Mailer) (s : MailState) : Prop where
  sendable : Sendable m s.table
  drains : ∀ d ∈ s.drains, DrainOk m s.table d
  sends : ∀ send ∈ s.sends, SendOk m s.table send

/-- The worker computes the batch key of the chunk: its first row carries none. -/
def computesKey (chunk : List EmailMessageRecord) : Bool :=
  ((chunk.head?).bind fun r => r.batchKey).isNone

/-- A claim takes no part of a batch for the whole, and a computed key is
written over no other key and joins the chunk to no other rows. -/
def Intact (s : MailState) : MailEvent → Prop
  | .claim locked limit options =>
      CountsWhole s.table s.clock locked
        ⟨limit, options.leaseSeconds, options.deadReplayWindowHours⟩
  | .call i outcome =>
      ∀ d chunk entries key rest, s.drains[i]? = some d →
        d.calls = .assignBatch chunk entries key :: rest → outcome ≠ .refused →
        computesKey chunk = true → KeepsBatches s.table chunk key
  | _ => True

/-! ## One step -/

theorem drainOk_set {d : Drain} {i : Nat} (h : ∀ d ∈ s.drains, DrainOk m t d)
    (hd : DrainOk m t d) : ∀ d' ∈ s.drains.set i d, DrainOk m t d' := by
  intro d' hd'
  rcases List.mem_or_eq_of_mem_set hd' with hold | rfl
  · exact h d' hold
  · exact hd

theorem mailOk_table (h : MailOk m s) (hkept : Kept m s.table t) (hs : Sendable m t) :
    MailOk m { s with table := t } :=
  ⟨hs, fun d hd => (h.drains d hd).kept hkept, fun send hsend => (h.sends send hsend).kept hkept⟩

theorem drainOk_nextChunk {d d' : Drain} {stopping : Bool} (hs : Sendable m t)
    (hd : DrainOk m t d) (h : nextChunk m d stopping = some d') : DrainOk m t d' := by
  unfold nextChunk at h
  split at h
  · next chunk rest _ hchunks =>
      have hchunk := hd.chunks chunk (hchunks ▸ List.mem_cons_self)
      split at h <;> cases h
      · refine ⟨fun c hc => ?_, nofun⟩
        rw [List.mem_singleton.1 hc]
        trivial
      · refine ⟨fun c hc => ?_, fun chunk hmem =>
          hd.chunks chunk (hchunks ▸ List.mem_cons_of_mem _ hmem)⟩
        rcases List.mem_append.1 hc with hfail | hassign
        · obtain ⟨r, -, hr⟩ := List.mem_filterMap.1 hfail
          split at hr <;> cases hr
          trivial
        · split at hassign
          · exact absurd hassign List.not_mem_nil
          · next hne =>
              rw [List.mem_singleton.1 hassign]
              exact ⟨chunkOk_rendered hs hchunk, hne, renders_rendered m chunk, rfl⟩
  · cases h

theorem callOk_settleAnswer {options : EmailDeliveryOptions} {random : Draw}
    {chunk : List EmailMessageRecord} {result : BatchResult} :
    ∀ c ∈ settleAnswer options random chunk result, CallOk m t c := by
  intro c hc
  cases result with
  | error error =>
      rw [List.mem_singleton.1 hc, settleRejected]
      split <;> trivial
  | answered data errors =>
      rcases List.mem_append.1 hc with hfail | hsent
      · obtain ⟨r, -, hr⟩ := List.mem_filterMap.1 hfail
        obtain ⟨message, -, rfl⟩ := Option.map_eq_some_iff.1 hr
        trivial
      · split at hsent
        · exact absurd hsent List.not_mem_nil
        · rw [List.mem_singleton.1 hsent]
          trivial

/-- A chunk may write its key: it is the batch already, or the key is computed. -/
theorem keepsBatches_assign {chunk : List EmailMessageRecord} {entries : List BatchEntry}
    {key : String} (h : CallOk m t (.assignBatch chunk entries key))
    (hcomputed : computesKey chunk = true → KeepsBatches t chunk key) :
    KeepsBatches t chunk key := by
  obtain ⟨hchunk, -, -, hkey⟩ := h
  cases hhead : (chunk.head?).bind fun r => r.batchKey with
  | none => exact hcomputed (by rw [computesKey, hhead]; rfl)
  | some carried =>
      obtain ⟨r, hr, hcarried⟩ := Option.bind_eq_some_iff.1 hhead
      have heq : key = carried := by rw [hkey, batchKeyOf, hhead, Option.getD_some]
      exact heq ▸ (hchunk.batch r (List.mem_of_head? hr) carried hcarried).keepsBatches

theorem kept_tableAfter {outcome : Outcome} {c : Call} (hs : Sendable m s.table)
    (hc : CallOk m s.table c)
    (hcomputed : ∀ chunk entries key, c = .assignBatch chunk entries key →
      outcome ≠ .refused → computesKey chunk = true → KeepsBatches s.table chunk key) :
    Kept m s.table (tableAfter m s outcome c) ∧ Sendable m (tableAfter m s outcome c) := by
  unfold tableAfter
  split
  · exact ⟨(SameBatches.refl m s.table).kept, hs⟩
  · next hcommitted =>
      cases c with
      | assignBatch chunk entries key =>
          have hkeeps := keepsBatches_assign hc (hcomputed chunk entries key rfl hcommitted)
          exact ⟨kept_assignBatch hkeeps,
            sendable_assignBatch hs hkeeps hc.1.listed hc.1.size hc.2.2.1.mem⟩
      | release rows delaySeconds =>
          have hsame : SameBatches m s.table
              (runStatement m s.table s.clock (.release rows delaySeconds)).1 :=
            sameBatches_runStatement nofun
          exact ⟨hsame.kept, hsame.sendable hs⟩
      | settleFailures rows failure =>
          have hsame : SameBatches m s.table
              (runStatement m s.table s.clock (.settleFailures rows failure)).1 :=
            sameBatches_runStatement nofun
          exact ⟨hsame.kept, hsame.sendable hs⟩
      | batchSend chunk entries key => exact ⟨(SameBatches.refl m s.table).kept, hs⟩
      | markSent rows providerIds =>
          have hsame : SameBatches m s.table
              (runStatement m s.table s.clock (.markSent rows providerIds)).1 :=
            sameBatches_runStatement nofun
          exact ⟨hsame.kept, hsame.sendable hs⟩

theorem callOk_nextCalls {outcome : Outcome} {c : Call} (hc : CallOk m s.table c)
    (hcomputed : ∀ chunk entries key, c = .assignBatch chunk entries key →
      outcome ≠ .refused → computesKey chunk = true → KeepsBatches s.table chunk key) :
    ∀ c' ∈ nextCalls s.table outcome c, CallOk m (tableAfter m s outcome c) c' := by
  intro c' hc'
  cases c with
  | assignBatch chunk entries key =>
      rw [nextCalls] at hc'
      split at hc'
      · next hassigned =>
          have hwritten : outcome = .written :=
            of_decide_eq_true (Bool.and_eq_true_iff.1 hassigned).1
          have hcommitted : outcome ≠ .refused := by rw [hwritten]; decide
          have hkeeps := keepsBatches_assign hc (hcomputed chunk entries key rfl hcommitted)
          rw [List.mem_singleton.1 hc', tableAfter, if_neg hcommitted]
          exact ⟨hc.1.listed.kept (kept_assignBatch hkeeps),
            isBatch_of_assigned hc.1.listed hkeeps hassigned, hc.2.1, hc.2.2.1⟩
      · rw [List.mem_singleton.1 hc']
        trivial
  | _ => exact absurd hc' List.not_mem_nil

theorem mailOk_runCall {i : Nat} {d : Drain} {outcome : Outcome} (hi : MailOk m s)
    (hd : s.drains[i]? = some d) (hC : Intact s (.call i outcome))
    (h : runCall m s i d outcome = some s') : MailOk m s' := by
  have hdok := hi.drains d (List.mem_of_getElem? hd)
  obtain ⟨c, rest, hcalls, rfl⟩ := runCall_eq_some h
  have hc := hdok.calls c (hcalls ▸ List.mem_cons_self)
  have hcomputed : ∀ chunk entries key, c = .assignBatch chunk entries key →
      outcome ≠ .refused → computesKey chunk = true → KeepsBatches s.table chunk key := by
    rintro chunk entries key rfl
    exact hC d chunk entries key rest hd hcalls
  obtain ⟨hkept, hsendable⟩ := kept_tableAfter hi.sendable hc hcomputed
  refine ⟨hsendable, drainOk_set (fun d hd => (hi.drains d hd).kept hkept) ⟨fun c' hc' => ?_,
    fun chunk hchunk => (hdok.chunks chunk hchunk).kept hkept⟩,
    fun send hsend => (hi.sends send hsend).kept hkept⟩
  rcases List.mem_append.1 hc' with hnext | hrest
  · exact callOk_nextCalls hc hcomputed c' hnext
  · exact (hdok.calls c' (hcalls ▸ List.mem_cons_of_mem _ hrest)).kept hkept

theorem mailOk_runSend {i : Nat} {d : Drain} {result : BatchResult} {accepts : String → Bool}
    {random : Draw} (hi : MailOk m s) (hd : s.drains[i]? = some d)
    (h : runSend m s i d result accepts random = some s') : MailOk m s' := by
  have hdok := hi.drains d (List.mem_of_getElem? hd)
  obtain ⟨chunk, entries, key, rest, hcalls, rfl⟩ := runSend_eq_some h
  have hc := hdok.calls _ (hcalls ▸ List.mem_cons_self)
  refine ⟨hi.sendable, drainOk_set hi.drains ⟨fun c' hc' => ?_, hdok.chunks⟩, fun send hsend => ?_⟩
  · rcases List.mem_append.1 hc' with hanswer | hrest
    · exact callOk_settleAnswer c' hanswer
    · exact hdok.calls c' (hcalls ▸ List.mem_cons_of_mem _ hrest)
  · rcases List.mem_append.1 hsend with hold | hnew
    · exact hi.sends send hold
    · rw [List.mem_singleton.1 hnew]
      exact ⟨key, chunk, hc.1, hc.2.1, hc.2.2.1, hc.2.2.2, rfl, rfl,
        List.filter_sublist, List.filter_sublist⟩

theorem mailOk_step {e : MailEvent} (hi : MailOk m s) (hC : Intact s e)
    (h : mailStep m s e = some s') : MailOk m s' := by
  cases e with
  | enqueue r =>
      simp only [mailStep] at h
      split at h
      · next hnew =>
          obtain ⟨table, hinsert, rfl⟩ := Option.map_eq_some_iff.1 h
          have hkey : r.batchKey = none := by
            simp only [newlyQueued, Bool.and_eq_true, Option.isNone_iff_eq_none] at hnew
            exact hnew.2
          have hsame : SameBatches m s.table table := sameBatches_insert hinsert hkey
          exact mailOk_table hi hsame.kept (hsame.sendable hi.sendable)
      · cases h
  | wait n =>
      cases h
      exact ⟨hi.sendable, hi.drains, hi.sends⟩
  | claim locked limit options =>
      cases h
      have hsame : SameBatches m s.table (claim s.table s.clock locked
          ⟨limit, options.leaseSeconds, options.deadReplayWindowHours⟩).1 := sameBatches_claim
      have hs := hsame.sendable hi.sendable
      have htable := mailOk_table hi hsame.kept hs
      refine ⟨hs, fun d hd => ?_, htable.sends⟩
      rcases List.mem_append.1 hd with hold | hnew
      · exact htable.drains d hold
      · rw [List.mem_singleton.1 hnew]
        refine ⟨fun c hc => ?_, fun chunk hchunk => chunkOk_drainOf hs hC hchunk⟩
        simp only [drainOf] at hc
        split at hc
        · exact absurd hc List.not_mem_nil
        · rw [List.mem_singleton.1 hc]
          trivial
  | nextChunk i stopping =>
      obtain ⟨d, hd, h⟩ := Option.bind_eq_some_iff.1 h
      obtain ⟨d', hd', rfl⟩ := Option.map_eq_some_iff.1 h
      have hdok := hi.drains d (List.mem_of_getElem? hd)
      exact ⟨hi.sendable, drainOk_set hi.drains (drainOk_nextChunk hi.sendable hdok hd'),
        hi.sends⟩
  | call i outcome =>
      obtain ⟨d, hd, h⟩ := Option.bind_eq_some_iff.1 h
      exact mailOk_runCall hi hd hC h
  | send i result accepts random =>
      obtain ⟨d, hd, h⟩ := Option.bind_eq_some_iff.1 h
      exact mailOk_runSend hi hd h

/-! ## What the requests say -/

theorem mail_eq_of_id {key : String} {a b : Mail} (ha : a ∈ batchMails m t key)
    (hb : b ∈ batchMails m t key) (hid : a.id = b.id) : a = b :=
  List.inj_on_of_nodup_map (nodup_batchMails m t key) ha hb hid

/-- A batch has one order. -/
theorem mails_eq {key : String} {chunk chunk' : List EmailMessageRecord}
    (h : Listed m t chunk) (hb : IsBatch m t key chunk) (h' : Listed m t chunk')
    (hb' : IsBatch m t key chunk') :
    chunk.map (fun c => mailOf m c.toEmailRow) = chunk'.map fun c => mailOf m c.toEmailRow := by
  have hsorted : ∀ {rows : List EmailMessageRecord}, Listed m t rows →
      (rows.map fun c => mailOf m c.toEmailRow).Pairwise fun a b => mailLe a b = true := by
    intro rows hrows
    rw [List.pairwise_map]
    exact hrows.sorted
  refine List.Perm.eq_of_pairwise ?_ (hsorted h) (hsorted h') (hb.trans hb'.symm)
  intro a b ha hb₀ hab hba
  exact mail_eq_of_id (hb.mem_iff.1 ha) (hb'.mem_iff.1 hb₀) (id_eq_of_mailLe hab hba)

/-- Two requests with a row in common are one request. -/
theorem same_request {a b : ProviderSend} (ha : SendOk m t a) (hb : SendOk m t b)
    {id : String} (hida : id ∈ a.ids) (hidb : id ∈ b.ids) :
    a.idempotencyKey = b.idempotencyKey ∧ a.entries = b.entries := by
  obtain ⟨key, chunk, hlisted, hbatch, -, hrender, hidem, hids, -⟩ := ha
  obtain ⟨key', chunk', hlisted', hbatch', -, hrender', hidem', hids', -⟩ := hb
  rw [hids] at hida
  rw [hids'] at hidb
  obtain ⟨c, hc, rfl⟩ := List.mem_map.1 hida
  obtain ⟨r, hr, hmail⟩ := hlisted.mails c hc
  have hrid : r.id = c.id := congrArg Mail.id hmail
  have hkey := (hbatch.ids hr).2 (hrid ▸ hida)
  have hkey' := (hbatch'.ids hr).2 (hrid ▸ hidb)
  obtain rfl : key = key' := Option.some.inj (hkey.symm.trans hkey')
  have hentries : a.entries = b.entries := by
    have hmails := congrArg (List.map Mail.entry) (mails_eq hlisted hbatch hlisted' hbatch')
    rw [List.map_map, List.map_map] at hmails
    have hok : a.entries.map (Except.ok (ε := String)) = b.entries.map Except.ok :=
      hrender.symm.trans (hmails.trans hrender')
    exact List.map_injective_iff.2 (fun x y h => Except.ok.inj h) hok
  exact ⟨by rw [hidem, hidem', hentries], hentries⟩

theorem SendOk.rows {send : ProviderSend} (h : SendOk m t send) :
    send.ids.Nodup ∧ send.accepted.Sublist send.ids ∧ send.unanswered.Sublist send.ids := by
  obtain ⟨-, chunk, hlisted, -, -, -, -, hids, hsub⟩ := h
  exact ⟨hids ▸ hlisted.nodup, hsub⟩

/-- Until an answer is recorded on a row, every request with it has one key and
one list of entries. -/
def OneKey (sends : List ProviderSend) : Prop :=
  sends.Pairwise fun send later => ∀ id ∈ send.ids, id ∈ later.unanswered →
    send.idempotencyKey = later.idempotencyKey ∧ send.entries = later.entries

/-- What a provider delivers that knows every key it has accepted something
under: nothing more for a key it has seen. -/
def deliveries : List String → List ProviderSend → List String
  | _, [] => []
  | seen, send :: rest =>
      if send.idempotencyKey ∈ seen ∨ send.accepted = [] then deliveries seen rest
      else send.accepted ++ deliveries (send.idempotencyKey :: seen) rest

theorem mem_deliveries {seen : List String} {sends : List ProviderSend} {id : String}
    (h : id ∈ deliveries seen sends) :
    ∃ send ∈ sends, send.idempotencyKey ∉ seen ∧ id ∈ send.accepted := by
  induction sends generalizing seen with
  | nil => exact absurd h List.not_mem_nil
  | cons send rest ih =>
      rw [deliveries] at h
      split at h
      · obtain ⟨later, hlater, hnew, hid⟩ := ih h
        exact ⟨later, List.mem_cons_of_mem _ hlater, hnew, hid⟩
      · next hfirst =>
          rcases List.mem_append.1 h with hhere | hrest
          · exact ⟨send, List.mem_cons_self, fun hseen => hfirst (.inl hseen), hhere⟩
          · obtain ⟨later, hlater, hnew, hid⟩ := ih hrest
            exact ⟨later, List.mem_cons_of_mem _ hlater,
              fun hseen => hnew (List.mem_cons_of_mem _ hseen), hid⟩

theorem nodup_deliveries {sends : List ProviderSend} (h : ∀ send ∈ sends, SendOk m t send)
    (seen : List String) : (deliveries seen sends).Nodup := by
  induction sends generalizing seen with
  | nil => exact List.nodup_nil
  | cons send rest ih =>
      have hsend := h send List.mem_cons_self
      have hrest : ∀ later ∈ rest, SendOk m t later :=
        fun later hlater => h later (List.mem_cons_of_mem _ hlater)
      obtain ⟨hnodup, hsub, -⟩ := hsend.rows
      rw [deliveries]
      split
      · exact ih hrest seen
      · rw [List.nodup_append]
        refine ⟨hnodup.sublist hsub, ih hrest _, ?_⟩
        rintro id hid _ hid' rfl
        obtain ⟨later, hlater, hnew, hacc⟩ := mem_deliveries hid'
        have hids := (hrest later hlater).rows.2.1.subset hacc
        have hkey := (same_request hsend (hrest later hlater) (hsub.subset hid) hids).1
        exact hnew (hkey ▸ List.mem_cons_self)

/-- Nothing is under way, and no row has been given a batch key. -/
def Idle (s : MailState) : Prop :=
  s.drains = [] ∧ s.sends = [] ∧ ∀ r ∈ s.table.rows, r.batchKey = none

theorem mailOk_of_idle (h : Idle s) : MailOk m s := by
  obtain ⟨hdrains, hsends, hkeys⟩ := h
  have hnone : ∀ key, batchMails m s.table key = [] := by
    intro key
    refine List.eq_nil_iff_forall_not_mem.2 fun mail hmail => ?_
    obtain ⟨r, hr, hkey, -⟩ := mem_batchMails.1 hmail
    rw [hkeys r hr] at hkey
    cases hkey
  refine ⟨fun key => ?_, fun d hd => ?_, fun send hsend => ?_⟩
  · rw [hnone key]
    exact ⟨Nat.zero_le _, nofun⟩
  · rw [hdrains] at hd
    exact absurd hd List.not_mem_nil
  · rw [hsends] at hsend
    exact absurd hsend List.not_mem_nil

variable {u : MailState} {es : List MailEvent}

/-- Any number of workers, any claims, answers, failures and crashes: as long as
no step takes a part of a batch for the whole or moves a row between batches,
a row is requested under one key, and delivered once. -/
theorem one_key (hidle : Idle s) (hC : Meets (mailStep m) Intact s es)
    (h : exec (mailStep m) s es = some u) :
    OneKey u.sends ∧ (deliveries [] u.sends).Nodup := by
  have hinv : MailOk m u :=
    runs_inv_meets (fun _ _ _ hi hC h => mailOk_step hi hC h) (mailOk_of_idle hidle) hC h
  refine ⟨List.pairwise_of_forall_mem_list fun send hsend later hlater id hid hid' => ?_,
    nodup_deliveries hinv.sends []⟩
  have hlaterOk := hinv.sends later hlater
  exact same_request (hinv.sends send hsend) hlaterOk hid (hlaterOk.rows.2.2.subset hid')

end Run

/-! ## Two letters -/

/-- The request times out and is made again. -/
def lettersRetried : List MailEvent :=
  lettersSent (.error ⟨.retryable, 0, "timed out"⟩) unlocked ++
    [.call 0 .written, .wait 60000000, .claim unlocked 300 hourlyReplay,
      .nextChunk 1 false, .call 1 .written,
      .send 1 (.answered (some ["x", "y"]) []) (fun _ => true) 0]

/-- A claim meets every row of the table in time, and a computed key a table
without keys. -/
def plainlyIntact (s : MailState) : MailEvent → Bool
  | .claim _ limit options =>
      s.table.rows.all (replayable s.clock
        ⟨limit, options.leaseSeconds, options.deadReplayWindowHours⟩)
  | .call i _ =>
      (s.drains[i]?).all fun d =>
        match d.calls with
        | .assignBatch chunk _ _ :: _ =>
            !computesKey chunk || s.table.rows.all fun r => r.batchKey.isNone
        | _ => true
  | _ => true

theorem intact_of_plainly (s : MailState) (e : MailEvent) (h : plainlyIntact s e = true) :
    Intact s e := by
  cases e with
  | claim locked limit options =>
      intro key _ _ r hr _
      exact List.all_eq_true.1 h r hr
  | call i outcome =>
      intro d chunk entries key rest hd hcalls _ hcomputes
      rw [plainlyIntact, hd, Option.all_some, hcalls] at h
      simp only [hcomputes, Bool.not_true, Bool.false_or, List.all_eq_true,
        Option.isNone_iff_eq_none] at h
      refine ⟨fun r hr _ => .inl (h r hr), .inl fun r hr hkey => ?_⟩
      rw [h r hr] at hkey
      cases hkey
  | _ => trivial

theorem one_key_letters :
    ∃ u, exec (mailStep letterMailer) emptyMail lettersRetried = some u ∧
      OneKey u.sends ∧ (deliveries [] u.sends).Nodup ∧
      u.sends.map ProviderSend.ids = [["a", "b"], ["a", "b"]] := by
  have hrun : (exec (mailStep letterMailer) emptyMail lettersRetried).map
      (fun u => u.sends.map ProviderSend.ids) = some [["a", "b"], ["a", "b"]] := by
    decide
  obtain ⟨u, hu, hids⟩ := Option.map_eq_some_iff.1 hrun
  obtain ⟨hkey, hnodup⟩ := one_key ⟨rfl, rfl, fun _ h => absurd h List.not_mem_nil⟩
    (meets_of_passes intact_of_plainly (by decide)) hu
  exact ⟨u, hu, hkey, hnodup, hids⟩

/-- The provider refuses one letter and takes the other. The refusal is recorded
and the worker dies; the other letter is claimed again, alone. -/
def letterLeftBehind : List MailEvent :=
  lettersSent (.answered (some ["x", "y"]) [(0, "invalid address")]) (fun id => id = "b") ++
    [.call 0 .written, .wait 121000000, .claim unlocked 300 hourlyReplay,
      .nextChunk 1 false, .call 1 .written,
      .send 1 (.answered (some ["z"]) []) (fun _ => true) 0]

theorem letter_sent_twice :
    ∃ u, exec (mailStep letterMailer) emptyMail letterLeftBehind = some u ∧
      ¬ OneKey u.sends ∧ deliveries [] u.sends = ["b", "b"] := by
  have hrun : (exec (mailStep letterMailer) emptyMail letterLeftBehind).map
      (fun u => (u.sends.map fun send => (send.ids, send.unanswered, send.entries.length),
        deliveries [] u.sends)) =
      some ([(["a", "b"], ["a", "b"], 2), (["b"], ["b"], 1)], ["b", "b"]) := by
    decide +kernel
  obtain ⟨u, hu, hboth⟩ := Option.map_eq_some_iff.1 hrun
  obtain ⟨hsends, hdelivered⟩ := Prod.mk.inj hboth
  refine ⟨u, hu, fun hone => ?_, hdelivered⟩
  obtain ⟨first, rest, hlist, hfirst, hrest⟩ := List.map_eq_cons_iff.1 hsends
  obtain ⟨second, rest, rfl, hsecond, -⟩ := List.map_eq_cons_iff.1 hrest
  obtain ⟨hids, -, hlen⟩ := (Prod.mk.inj hfirst).imp_right Prod.mk.inj
  obtain ⟨-, hopen, hlen'⟩ := (Prod.mk.inj hsecond).imp_right Prod.mk.inj
  rw [OneKey, hlist, List.pairwise_cons] at hone
  obtain ⟨-, hentries⟩ := hone.1 second List.mem_cons_self "b" (by rw [hids]; decide)
    (by rw [hopen]; decide)
  rw [hentries, hlen'] at hlen
  exact absurd hlen (by decide)

end CleanStack.Email
