import CleanStack.Proofs.AccountWipe
import CleanStack.Rgpd.StoragePurge

/-!
# What becomes of a wiped user's objects

A call that wipes an account answers for the objects under the user's prefix
when each of them is deleted, reported, or tried again later, and when the
number it returns is the number it deleted.

A later sweep never tries again: it looks for accounts that are not wiped, and
nothing takes a wipe back. A failed listing is reported and counts nothing, and
a failed delete is reported but counts everything. The keys that an answered
delete could not remove are in no report, and a stop reports nothing.
-/

namespace CleanStack.Rgpd

open CleanStack.Lib CleanStack.Admin CleanStack.Drizzle CleanStack.AccessControl
open CleanStack.Uploads

/-! ## A wipe is for good -/

section Wiped

variable {env : StaffEnv} {settings : RgpdSettings} {s t : AccountState} {db : StaffDb}
  {now : Time} {userId target : String}

/-- The user has been wiped. -/
def IsWiped (db : StaffDb) (userId : String) : Prop :=
  ∃ user, db.users.find? userId = some user ∧ user.deletedAt.isSome = true

theorem isWiped_updateUser {f : UserRow → UserRow} {hf : ∀ u, Keyed.key (f u) = Keyed.key u}
    (hdeleted : ∀ u, (f u).deletedAt = u.deletedAt) (h : IsWiped db userId) :
    IsWiped (updateUser db target f hf) userId := by
  obtain ⟨user, hfind, hwiped⟩ := h
  rw [IsWiped, find?_updateUser hf, hfind, Option.map_some]
  refine ⟨_, rfl, ?_⟩
  split
  · rw [hdeleted]
    exact hwiped
  · exact hwiped

theorem isWiped_wipeTransaction (h : IsWiped db userId) :
    IsWiped (wipeTransaction db target now) userId := by
  obtain ⟨user, hfind, hwiped⟩ := h
  rw [IsWiped, users_wipeTransaction, find?_executeWipe, hfind, Option.map_some]
  refine ⟨_, rfl, ?_⟩
  split
  · rfl
  · exact hwiped

/-- The wipe's own transaction leaves the user wiped, by itself or by another. -/
theorem isWiped_of_known (h : (db.users.find? userId).isSome = true) :
    IsWiped (wipeTransaction db userId now) userId := by
  obtain ⟨user, hfind⟩ := Option.isSome_iff_exists.1 h
  have hid : user.id = userId := (Table.find?_eq_some.1 hfind).2
  rw [IsWiped, users_wipeTransaction, find?_executeWipe, hfind, Option.map_some]
  refine ⟨_, rfl, ?_⟩
  by_cases hwiped : user.deletedAt.isSome = true
  · split
    · rfl
    · exact hwiped
  · have hnone : user.deletedAt.isNone = true := by simpa using hwiped
    have hwipes : wipes userId user = true := by simp [wipes, hid, hnone]
    simp [hwipes, wipedRow]

theorem isWiped_step {e : AccountEvent} (h : accountStep env settings s e = some t)
    (hwiped : IsWiped s.db userId) : IsWiped t.db userId := by
  cases e with
  | staff input op =>
      cases h
      cases hout : op.run env s.db s.clock input with
      | error error => exact hwiped
      | ok db =>
          show IsWiped db userId
          rw [IsWiped, staff_users hout]
          exact hwiped
  | ban input expiresIn =>
      cases h
      cases hout : moderateBan env s.db s.clock input expiresIn with
      | error error => exact hwiped
      | ok db =>
          obtain ⟨-, expiresAt, rfl⟩ := moderateBan_eq_ok hout
          exact isWiped_updateUser (fun _ => rfl) hwiped
  | beginRequest target c =>
      simp only [accountStep] at h
      split at h <;> cases h
      · exact hwiped
      · exact hwiped
  | commitRequest i =>
      obtain ⟨⟨target, until_⟩, -, h⟩ := Option.bind_eq_some_iff.1 h
      cases h
      cases hout : requestTransaction env s.db s.clock target until_ with
      | error error => exact hwiped
      | ok db =>
          unfold requestTransaction at hout
          split at hout <;> cases hout
          exact isWiped_updateUser (fun _ => rfl) hwiped
  | beginCancel target =>
      simp only [accountStep] at h
      split at h <;> cases h
      · exact hwiped
      · exact hwiped
  | commitCancel i =>
      obtain ⟨target, -, h⟩ := Option.bind_eq_some_iff.1 h
      cases h
      exact isWiped_updateUser (fun _ => rfl) hwiped
  | startSweep chosen limit =>
      simp only [accountStep] at h
      split at h <;> cases h
      exact hwiped
  | readState i =>
      obtain ⟨sweep, -, h⟩ := Option.bind_eq_some_iff.1 h
      split at h <;> cases h
      exact hwiped
  | wipe i =>
      obtain ⟨sweep, -, h⟩ := Option.bind_eq_some_iff.1 h
      obtain ⟨⟨target, read⟩, -, h⟩ := Option.bind_eq_some_iff.1 h
      cases h
      exact isWiped_wipeTransaction hwiped
  | dropWipe i =>
      obtain ⟨sweep, -, h⟩ := Option.bind_eq_some_iff.1 h
      cases h
      exact hwiped
  | wait n =>
      cases h
      exact hwiped

/-- After some more of a run, a sweep that reads the user would go on to wipe
the account and delete its objects. -/
def TriedLater (env : StaffEnv) (settings : RgpdSettings) (s : AccountState) (userId : String) :
    Prop :=
  ∃ es t, exec (accountStep env settings) s es = some t ∧
    (readWipe t.db t.clock userId).isSome = true

theorem not_triedLater (hwiped : IsWiped s.db userId) : ¬ TriedLater env settings s userId := by
  intro ⟨es, t, hexec, hread⟩
  have hstill : IsWiped t.db userId :=
    runs_inv (fun _ _ _ hw he => isWiped_step he hw) hwiped hexec
  obtain ⟨user, hfind, hdeleted⟩ := hstill
  simp [readWipe, hfind, hdeleted] at hread

end Wiped

/-! ## Which objects are listed -/

section Listing

variable {pages answers : List PageAnswer} {rest keys : List String} {count size : Nat}

/-- The keys that some pages have between them, if there are as many. -/
def handedOver (pages : List PageAnswer) : Nat :=
  (pages.map fun
    | .page size => size
    | .failed => 0).sum

/-- A listing call fails while keys are left. -/
def ListingFails (pages : List PageAnswer) (count : Nat) : Prop :=
  ∃ n, pages[n]? = some .failed ∧ .failed ∉ pages.take n ∧
    (n = 0 ∨ handedOver (pages.take n) < count)

/-- The calls hand over all the keys, and none of them fails before that. -/
def ListingEnds (pages : List PageAnswer) (count : Nat) : Prop :=
  ∃ n, n < pages.length ∧ .failed ∉ pages.take (n + 1) ∧ count ≤ handedOver (pages.take (n + 1))

theorem handedOver_cons : handedOver (.page size :: pages) = size + handedOver pages := by
  simp [handedOver]

theorem listingFails_page :
    ListingFails (.page size :: pages) count ↔
      size < count ∧ ListingFails pages (count - size) := by
  constructor
  · intro ⟨n, hn, hbefore, hless⟩
    cases n with
    | zero => cases hn
    | succ n =>
        rw [List.take_succ_cons, handedOver_cons] at hless
        rw [List.take_succ_cons, List.mem_cons, not_or] at hbefore
        refine ⟨by omega, n, hn, hbefore.2, ?_⟩
        omega
  · intro ⟨hsize, n, hn, hbefore, hless⟩
    refine ⟨n + 1, hn, ?_, ?_⟩
    · rw [List.take_succ_cons, List.mem_cons, not_or]
      exact ⟨by simp, hbefore⟩
    · rw [List.take_succ_cons, handedOver_cons]
      rcases hless with rfl | hless
      · simp [handedOver, hsize]
      · omega

theorem listingEnds_page :
    ListingEnds (.page size :: pages) count ↔
      count ≤ size ∨ ListingEnds pages (count - size) := by
  constructor
  · intro ⟨n, hn, hbefore, hless⟩
    rw [List.take_succ_cons, handedOver_cons] at hless
    rw [List.take_succ_cons, List.mem_cons, not_or] at hbefore
    cases n with
    | zero => exact .inl (by simpa [handedOver] using hless)
    | succ n => exact .inr ⟨n, by simpa using hn, hbefore.2, by omega⟩
  · intro h
    rcases h with hle | ⟨n, hn, hbefore, hless⟩
    · refine ⟨0, by simp, by simp, ?_⟩
      simpa [handedOver] using hle
    · refine ⟨n + 1, by simpa using hn, ?_, ?_⟩
      · rw [List.take_succ_cons, List.mem_cons, not_or]
        exact ⟨by simp, hbefore⟩
      · rw [List.take_succ_cons, handedOver_cons]
        omega

theorem listLoop_threw_iff :
    listLoop answers rest keys = .threw ↔ ListingFails answers rest.length := by
  induction answers generalizing rest keys with
  | nil => simp [listLoop, ListingFails]
  | cons answer answers ih =>
      cases answer with
      | failed =>
          refine iff_of_true rfl ⟨0, rfl, ?_, .inl rfl⟩
          simp
      | page size =>
          rw [listingFails_page, ← List.length_drop]
          by_cases htruncated : size < rest.length
          · rw [and_iff_right htruncated]
            simp only [listLoop, if_pos htruncated]
            exact ih
          · simp [listLoop, htruncated]

theorem listLoop_done_iff {found : List String} :
    listLoop answers rest keys = .done found ↔
      ListingEnds answers rest.length ∧ found = keys ++ rest := by
  induction answers generalizing rest keys with
  | nil => simp [listLoop, ListingEnds]
  | cons answer answers ih =>
      cases answer with
      | failed => simp [listLoop, ListingEnds]
      | page size =>
          rw [listingEnds_page, ← List.length_drop]
          by_cases htruncated : size < rest.length
          · have hnot : ¬ rest.length ≤ size := by omega
            simp only [listLoop, if_pos htruncated, ih, hnot, false_or, List.append_assoc,
              List.take_append_drop]
          · have hle : rest.length ≤ size := by omega
            simp only [listLoop, if_neg htruncated, hle, true_or, true_and, Ending.done.injEq,
              List.take_of_length_le hle]
            exact eq_comm

end Listing

/-! ## Which objects are deleted -/

section Deleting

variable {answers : List BatchAnswer} {answer : BatchAnswer} {keys : List String} {b : Bucket}

/-- Every delete call is made and removes each of its keys; a call that fails
is the last one. -/
def EveryKeyRemoved (answers : List BatchAnswer) (keys : List String) : Prop :=
  ∀ i, i * S3_DELETE_BATCH < keys.length → ∃ answer, answers[i]? = some answer ∧
    (∀ key ∈ (keys.drop (i * S3_DELETE_BATCH)).take S3_DELETE_BATCH, answer.removed key = true) ∧
    ((i + 1) * S3_DELETE_BATCH < keys.length → answer.ending = .done ())

theorem everyKeyRemoved_nil : EveryKeyRemoved answers [] := by
  intro i hi
  simp at hi

theorem everyKeyRemoved_cons (hne : keys ≠ []) :
    EveryKeyRemoved (answer :: answers) keys ↔
      (∀ key ∈ keys.take S3_DELETE_BATCH, answer.removed key = true) ∧
        (S3_DELETE_BATCH < keys.length → answer.ending = .done ()) ∧
        EveryKeyRemoved answers (keys.drop S3_DELETE_BATCH) := by
  have hpos := List.length_pos_of_ne_nil hne
  have hdrop : ∀ i, (keys.drop S3_DELETE_BATCH).drop (i * S3_DELETE_BATCH) =
      keys.drop ((i + 1) * S3_DELETE_BATCH) := by
    intro i
    rw [List.drop_drop]
    congr 1
    rw [Nat.succ_mul, Nat.add_comm]
  constructor
  · intro h
    obtain ⟨found, hfound, hremoved, hending⟩ := h 0 (by omega)
    cases hfound
    refine ⟨by simpa using hremoved, by simpa using hending, ?_⟩
    intro i hi
    rw [List.length_drop] at hi
    obtain ⟨found, hfound, hremoved, hending⟩ := h (i + 1) (by rw [Nat.succ_mul]; omega)
    rw [hdrop]
    refine ⟨found, hfound, hremoved, fun hless => hending ?_⟩
    rw [List.length_drop] at hless
    rw [Nat.succ_mul (i + 1)]
    omega
  · intro ⟨hremoved, hending, hrest⟩ i hi
    cases i with
    | zero => exact ⟨answer, rfl, by simpa using hremoved, by simpa using hending⟩
    | succ i =>
        rw [Nat.succ_mul] at hi
        obtain ⟨found, hfound, hremoved, hending⟩ := hrest i (by rw [List.length_drop]; omega)
        rw [hdrop] at hremoved
        refine ⟨found, hfound, hremoved, fun hless => hending ?_⟩
        rw [Nat.succ_mul (i + 1)] at hless
        rw [List.length_drop]
        omega

theorem mem_remove {chosen : String → Bool} {key : String} :
    key ∈ (b.remove chosen).keys ↔ key ∈ b.keys ∧ chosen key = false := by
  rw [Bucket.remove, List.mem_filter, Bool.not_eq_true']

/-- Other keys stay. -/
theorem mem_deleteLoop_of_not_mem {key : String} (h : key ∉ keys) :
    key ∈ (deleteLoop answers keys b).1.keys ↔ key ∈ b.keys := by
  induction answers generalizing keys b with
  | nil => rfl
  | cons answer answers ih =>
      have hkept : ∀ chosen : String → Bool,
          key ∈ (b.remove fun k => (keys.take S3_DELETE_BATCH).contains k && chosen k).keys ↔
            key ∈ b.keys := by
        intro chosen
        have hbatch : key ∉ keys.take S3_DELETE_BATCH := fun hk => h (List.mem_of_mem_take hk)
        simp [mem_remove, hbatch]
      unfold deleteLoop
      split
      · rfl
      · simp only
        split
        · rw [ih fun hk => h (List.mem_of_mem_drop hk)]
          exact hkept _
        · exact hkept _
        · exact hkept _

/-- All the keys are gone exactly when each call removes its own. -/
theorem deleted_iff (hmem : ∀ key ∈ keys, key ∈ b.keys) (hnodup : keys.Nodup) :
    (∀ key ∈ keys, key ∉ (deleteLoop answers keys b).1.keys) ↔ EveryKeyRemoved answers keys := by
  induction answers generalizing keys b with
  | nil =>
      constructor
      · intro h i hi
        obtain ⟨key, hkey⟩ := List.exists_mem_of_ne_nil keys (by rintro rfl; simp at hi)
        exact absurd (hmem key hkey) (h key hkey)
      · intro h key hkey
        obtain ⟨answer, hanswer, -⟩ := h 0 (by simpa using List.length_pos_of_mem hkey)
        cases hanswer
  | cons answer answers ih =>
      by_cases hempty : keys = []
      · subst hempty
        exact iff_of_true (by simp) everyKeyRemoved_nil
      · have hsplit := List.take_append_drop S3_DELETE_BATCH keys
        have hapart : ∀ key ∈ keys.take S3_DELETE_BATCH, key ∉ keys.drop S3_DELETE_BATCH := by
          rw [← hsplit, List.nodup_append] at hnodup
          intro key htake hdrop
          exact hnodup.2.2 key htake key hdrop rfl
        have hall : ∀ P : String → Prop, (∀ key ∈ keys, P key) ↔
            (∀ key ∈ keys.take S3_DELETE_BATCH, P key) ∧
              ∀ key ∈ keys.drop S3_DELETE_BATCH, P key := by
          intro P
          constructor
          · intro h
            exact ⟨fun k hk => h k (List.mem_of_mem_take hk),
              fun k hk => h k (List.mem_of_mem_drop hk)⟩
          · intro ⟨htake, hdrop⟩ k hk
            rw [← hsplit, List.mem_append] at hk
            exact hk.elim (htake k) (hdrop k)
        have hbatch : ∀ key ∈ keys.take S3_DELETE_BATCH,
            (key ∈ (b.remove fun k =>
              (keys.take S3_DELETE_BATCH).contains k && answer.removed k).keys ↔
                answer.removed key = false) := by
          intro key hkey
          simp [mem_remove, hmem key (List.mem_of_mem_take hkey), hkey]
        have hrest : ∀ key ∈ keys.drop S3_DELETE_BATCH,
            key ∈ (b.remove fun k =>
              (keys.take S3_DELETE_BATCH).contains k && answer.removed k).keys := by
          intro key hkey
          have hnot : key ∉ keys.take S3_DELETE_BATCH := fun htake => hapart key htake hkey
          simp [mem_remove, hmem key (List.mem_of_mem_drop hkey), hnot]
        have hisEmpty : keys.isEmpty = false := by simpa using hempty
        have hbelow : S3_DELETE_BATCH < keys.length ↔ keys.drop S3_DELETE_BATCH ≠ [] := by
          rw [Ne, List.drop_eq_nil_iff, Nat.not_le]
        rw [everyKeyRemoved_cons hempty, hall]
        by_cases hdone : answer.ending = .done ()
        · simp only [deleteLoop, hisEmpty, hdone, Bool.false_eq_true, if_false, implies_true,
            true_and]
          rw [ih hrest (hnodup.sublist (List.drop_sublist _ _))]
          refine and_congr_left fun _ => forall₂_congr fun key hkey => ?_
          rw [mem_deleteLoop_of_not_mem (hapart key hkey), hbatch key hkey, Bool.not_eq_false]
        · have hstop : (deleteLoop (answer :: answers) keys b).1 =
              b.remove fun k => (keys.take S3_DELETE_BATCH).contains k && answer.removed k := by
            cases hending : answer.ending with
            | done => exact absurd hending hdone
            | threw => simp only [deleteLoop, hisEmpty, hending, Bool.false_eq_true, if_false]
            | stopped => simp only [deleteLoop, hisEmpty, hending, Bool.false_eq_true, if_false]
          rw [hstop, hbelow]
          refine and_congr (forall₂_congr fun key hkey => ?_) ?_
          · rw [hbatch key hkey, Bool.not_eq_false]
          · constructor
            · intro h
              have hnil : keys.drop S3_DELETE_BATCH = [] := by
                rw [List.eq_nil_iff_forall_not_mem]
                intro key hkey
                exact h key hkey (hrest key hkey)
              rw [hnil]
              exact ⟨fun hne => absurd rfl hne, everyKeyRemoved_nil⟩
            · intro ⟨hlast, _⟩ key hkey
              exact absurd (hlast (List.ne_nil_of_mem hkey)) hdone

end Deleting

/-! ## What a call answers for -/

section Accounting

variable {env : StaffEnv} {settings : RgpdSettings} {s : AccountState} {read : StaffDb}
  {readAt : Time} {orgs : List String} {answers : StorageAnswers} {b : Bucket} {userId : String}

/-- A log line says that objects of the user may be left behind. -/
def Reported (userId : String) (log : List LogLine) : Prop :=
  ∃ line ∈ log, line.fields.lookup "userId" = some userId ∧
    (line.message = orphanedByListing ∨ line.message = orphanedByDelete)

/-- The keys of a bucket that another one lacks. -/
def removedKeys (before after : Bucket) : List String :=
  before.keys.filter fun key => !after.keys.contains key

/-- Each object under the user's prefix is deleted, reported, or tried again
later, and a returned count is the number of objects that were deleted. -/
structure Accounted (env : StaffEnv) (settings : RgpdSettings) (s : AccountState) (b : Bucket)
    (out : WipeRun) (userId : String) : Prop where
  objects : ∀ key ∈ b.under (userPrefix userId), key ∉ out.bucket.keys ∨
    Reported userId out.log ∨ (∃ error, out.result = .done (.error error)) ∨
      TriedLater env settings { s with db := out.db } userId
  count : ∀ output, out.result = .done (.ok output) →
    output.storageKeysDeleted = (removedKeys b out.bucket).length

/-- The user has no objects; or a listing call fails; or the listing is handed
over and every delete call removes all of its keys. -/
def Removable (answers : StorageAnswers) (keys : List String) : Prop :=
  keys = [] ∨ ListingFails answers.pages keys.length ∨
    (ListingEnds answers.pages keys.length ∧ EveryKeyRemoved answers.batches keys)

theorem removedKeys_self : removedKeys b b = [] := by
  rw [removedKeys, List.filter_eq_nil_iff]
  intro key hkey
  simp [hkey]

theorem removed_length_iff {batches : List BatchAnswer} {keyPrefix : String} :
    (b.under keyPrefix).length =
        (removedKeys b (deleteLoop batches (b.under keyPrefix) b).1).length ↔
      ∀ key ∈ b.under keyPrefix, key ∉ (deleteLoop batches (b.under keyPrefix) b).1.keys := by
  have hremoved : removedKeys b (deleteLoop batches (b.under keyPrefix) b).1 =
      (b.under keyPrefix).filter fun key =>
        !(deleteLoop batches (b.under keyPrefix) b).1.keys.contains key := by
    rw [removedKeys, Bucket.under, List.filter_filter]
    apply List.filter_congr
    intro key hkey
    by_cases hunder : keyPrefix.toList.isPrefixOf key.toList = true
    · rw [hunder, Bool.and_true]
    · have hnot : key ∉ b.under keyPrefix := fun h => hunder (List.mem_filter.1 h).2
      have hkept : key ∈ (deleteLoop batches (b.under keyPrefix) b).1.keys :=
        (mem_deleteLoop_of_not_mem hnot).2 hkey
      rw [Bucket.under] at hkept
      simp [hunder, hkept]
  rw [hremoved, eq_comm, List.length_filter_eq_length_iff]
  simp

/-- The answers of the object store decide what the call leaves behind. -/
theorem executeAccountWipe_of_read (hread : (readWipe read readAt userId).isSome = true) :
    executeAccountWipe read readAt s.db s.clock (.committed orgs) answers b userId =
      ⟨wipeTransaction s.db userId s.clock, (purgeUserObjects answers b userId).1,
        (purgeUserObjects answers b userId).2.1,
        match (purgeUserObjects answers b userId).2.2 with
        | .done storageKeysDeleted => .done (.ok
            ⟨if (executeWipe s.db userId s.clock).2 then [] else orgs, storageKeysDeleted⟩)
        | .threw => .threw
        | .stopped => .stopped⟩ := by
  unfold readWipe at hread
  unfold executeAccountWipe
  cases hfind : read.users.find? userId with
  | none => simp [hfind] at hread
  | some user =>
      rw [hfind] at hread
      cases hpending : user.pendingDeletionUntil with
      | none => simp [hpending] at hread
      | some d =>
          by_cases hdeleted : user.deletedAt.isSome = true
          · simp [hdeleted] at hread
          · have hdue : ¬ readAt < d := by
              simpa [hdeleted, hpending, Option.filter] using hread
            exact (if_neg hdeleted).trans (if_neg (by simpa [hpending] using hdue))

/-! The listing fails, stops, or hands over all the keys. -/

theorem reported_of_warning {log : List LogLine} {error : AppError} {message : String}
    (h : message = orphanedByListing ∨ message = orphanedByDelete) :
    Reported userId (log ++ [warning userId error message]) :=
  ⟨_, List.mem_append_right _ (List.mem_singleton_self _), rfl, h⟩

theorem purge_of_listingFails
    (h : ListingFails answers.pages (b.under (userPrefix userId)).length) :
    ∃ log, purgeUserObjects answers b userId = (b, log, .done 0) ∧ Reported userId log := by
  have hloop : listLoop answers.pages (b.under (userPrefix userId)) [] = .threw :=
    listLoop_threw_iff.2 h
  have hpurge : purgeUserObjects answers b userId =
      (b, [⟨.error, [("prefix", userPrefix userId)], "list object keys failed"⟩] ++
        [warning userId (storageFailure "list object keys failed") orphanedByListing],
        .done 0) := by
    simp only [purgeUserObjects, listObjectKeys, hloop]
  exact ⟨_, hpurge, reported_of_warning (.inl rfl)⟩

theorem purge_of_listingStops
    (hfails : ¬ ListingFails answers.pages (b.under (userPrefix userId)).length)
    (hends : ¬ ListingEnds answers.pages (b.under (userPrefix userId)).length) :
    purgeUserObjects answers b userId = (b, [], .stopped) := by
  have hloop : listLoop answers.pages (b.under (userPrefix userId)) [] = .stopped := by
    cases hloop : listLoop answers.pages (b.under (userPrefix userId)) [] with
    | done keys => exact absurd (listLoop_done_iff.1 hloop).1 hends
    | threw => exact absurd (listLoop_threw_iff.1 hloop) hfails
    | stopped => rfl
  simp only [purgeUserObjects, listObjectKeys, hloop]

/-- The keys are all counted, unless the process stops without a report. -/
theorem purge_of_listingEnds
    (h : ListingEnds answers.pages (b.under (userPrefix userId)).length) :
    ∃ log ending, purgeUserObjects answers b userId =
        ((deleteLoop answers.batches (b.under (userPrefix userId)) b).1, log, ending) ∧
      (ending = .done (b.under (userPrefix userId)).length ∨
        ending = .stopped ∧ ¬ Reported userId log) := by
  have hloop : listLoop answers.pages (b.under (userPrefix userId)) [] =
      .done (b.under (userPrefix userId)) := listLoop_done_iff.2 ⟨h, rfl⟩
  have hsilent : ¬ Reported userId [] := fun ⟨_, hline, _⟩ => nomatch hline
  cases hdelete : deleteLoop answers.batches (b.under (userPrefix userId)) b with
  | mk after ending =>
      cases ending with
      | done =>
          refine ⟨[], .done _, ?_, .inl rfl⟩
          simp only [purgeUserObjects, listObjectKeys, hloop, deleteObjects, hdelete]
      | threw =>
          refine ⟨[⟨.error, [("count", toString (b.under (userPrefix userId)).length)],
            "delete objects failed"⟩] ++ [warning userId (storageFailure "delete objects failed")
              orphanedByDelete], .done _, ?_, .inl rfl⟩
          simp only [purgeUserObjects, listObjectKeys, hloop, deleteObjects, hdelete]
      | stopped =>
          refine ⟨[], .stopped, ?_, .inr ⟨rfl, hsilent⟩⟩
          simp only [purgeUserObjects, listObjectKeys, hloop, deleteObjects, hdelete]

/-- A call answers for the user's objects exactly when a listing call fails or
every delete call removes all of its keys. -/
theorem erasure_accounted_iff (env : StaffEnv) (settings : RgpdSettings) (s : AccountState)
    (read : StaffDb) (readAt : Time) (orgs : List String) (answers : StorageAnswers) (b : Bucket)
    (userId : String) (hread : (readWipe read readAt userId).isSome = true)
    (hknown : (s.db.users.find? userId).isSome = true) :
    Accounted env settings s b
        (executeAccountWipe read readAt s.db s.clock (.committed orgs) answers b userId) userId ↔
      Removable answers (b.under (userPrefix userId)) := by
  have hnever : ¬ TriedLater env settings
      { s with db := wipeTransaction s.db userId s.clock } userId :=
    not_triedLater (s := { s with db := wipeTransaction s.db userId s.clock })
      (isWiped_of_known hknown)
  have hmem : ∀ key ∈ b.under (userPrefix userId), key ∈ b.keys :=
    fun key hkey => (List.mem_filter.1 hkey).1
  have hnodup : (b.under (userPrefix userId)).Nodup := b.nodup.filter _
  rw [executeAccountWipe_of_read hread]
  by_cases hfails : ListingFails answers.pages (b.under (userPrefix userId)).length
  · obtain ⟨log, hpurge, hreported⟩ := purge_of_listingFails hfails
    rw [hpurge]
    refine iff_of_true ⟨fun _ _ => .inr (.inl hreported), ?_⟩ (.inr (.inl hfails))
    intro output hout
    cases hout
    rw [removedKeys_self]
    rfl
  · by_cases hends : ListingEnds answers.pages (b.under (userPrefix userId)).length
    · obtain ⟨log, ending, hpurge, hending⟩ := purge_of_listingEnds hends
      rw [hpurge]
      have hremovable : Removable answers (b.under (userPrefix userId)) ↔
          ∀ key ∈ b.under (userPrefix userId),
            key ∉ (deleteLoop answers.batches (b.under (userPrefix userId)) b).1.keys := by
        rw [deleted_iff hmem hnodup]
        constructor
        · intro h
          rcases h with hempty | h | h
          · rw [hempty]
            exact everyKeyRemoved_nil
          · exact absurd h hfails
          · exact h.2
        · intro h
          exact .inr (.inr ⟨hends, h⟩)
      rw [hremovable]
      rcases hending with rfl | ⟨rfl, hsilent⟩
      · constructor
        · intro h
          exact removed_length_iff.1 (h.count _ rfl)
        · intro h
          refine ⟨fun key hkey => .inl (h key hkey), ?_⟩
          intro output hout
          cases hout
          exact removed_length_iff.2 h
      · constructor
        · intro h key hkey
          rcases h.objects key hkey with hdeleted | hreported | ⟨error, herror⟩ | hlater
          · exact hdeleted
          · exact absurd hreported hsilent
          · cases herror
          · exact absurd hlater hnever
        · intro h
          refine ⟨fun key hkey => .inl (h key hkey), ?_⟩
          intro output hout
          cases hout
    · rw [purge_of_listingStops hfails hends]
      constructor
      · intro h
        refine .inl (List.eq_nil_iff_forall_not_mem.2 fun key hkey => ?_)
        rcases h.objects key hkey with hdeleted | ⟨_, hline, _⟩ | ⟨error, herror⟩ | hlater
        · exact hdeleted (hmem key hkey)
        · cases hline
        · cases herror
        · exact hnever hlater
      · intro h
        rcases h with hempty | h | h
        · refine ⟨fun key hkey => ?_, ?_⟩
          · rw [hempty] at hkey
            cases hkey
          · intro output hout
            cases hout
        · exact absurd h hfails
        · exact absurd h.1 hends

end Accounting

/-! ## A key that an answered delete left -/

def adaObject : Bucket := ⟨["ada/avatar.png"], by decide⟩

/-- One page, and one answered delete call that removes what `removed` says. -/
def answeredWith (removed : String → Bool) : StorageAnswers :=
  ⟨[.page 1], [⟨.done (), removed⟩]⟩

/-- The object stays, nothing is logged, and one object is said to be deleted. -/
theorem refused_key_left_behind :
    ¬ ∀ (env : StaffEnv) (settings : RgpdSettings) (s : AccountState) (read : StaffDb)
      (readAt : Time) (orgs : List String) (answers : StorageAnswers) (b : Bucket)
      (userId : String), (readWipe read readAt userId).isSome = true →
      (s.db.users.find? userId).isSome = true →
      Accounted env settings s b
        (executeAccountWipe read readAt s.db s.clock (.committed orgs) answers b userId)
        userId := by
  intro hall
  have h := hall rootListed ⟨30⟩ (accountsAt adaPending) adaPending 0 []
    (answeredWith fun _ => false) adaObject "ada" rfl rfl
  exact absurd (h.count ⟨[], 1⟩ (by decide)) (by decide)

theorem erasure_accounted_iff_ada :
    Accounted rootListed ⟨30⟩ (accountsAt adaPending) adaObject
      (executeAccountWipe adaPending 0 adaPending (accountsAt adaPending).clock (.committed [])
        (answeredWith fun _ => true) adaObject "ada") "ada" := by
  refine (erasure_accounted_iff rootListed ⟨30⟩ (accountsAt adaPending) adaPending 0 []
    (answeredWith fun _ => true) adaObject "ada" rfl rfl).2 (.inr (.inr ⟨⟨0, ?_⟩, ?_⟩))
  · decide
  · intro i hi
    have hone : (adaObject.under (userPrefix "ada")).length = 1 := by decide
    rw [hone, S3_DELETE_BATCH] at hi
    obtain rfl : i = 0 := by omega
    exact ⟨_, rfl, fun _ _ => rfl, fun _ => rfl⟩

end CleanStack.Rgpd
