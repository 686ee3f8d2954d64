import CleanStack.Uploads.UploadService
import Mathlib.Data.List.Infix

/-!
# Keys that come back

Of the four parts of a key the server chooses two and checks one: owner, scope
and UUID have only letters, digits and hyphens in them. A file name may have
spaces and two dots in a row, which a key may not, and the limit on a key's
length is met only when the owner's id leaves room.
-/

namespace CleanStack.Uploads

open CleanStack.Kit CleanStack.Lib

/-- The owner's id and the body under which the key that is issued is a key. -/
def FitsKey (ownerId : String) (body : PresignUploadBody) : Prop :=
  ownerId ≠ "" ∧ ' ' ∉ body.filename.toList ∧ ¬['.', '.'] <:+: body.filename.toList ∧
    ownerId.length + body.scope.length + body.filename.length + 39 ≤ 512

theorem keySchema_iff (v : String) : keySchema v = true ↔
    1 ≤ jsLength v ∧ jsLength v ≤ 512 ∧ matchesKey v.toList = true ∧
      ¬['.', '.'] <:+: v.toList ∧ ¬['/', '/'] <:+: v.toList := by
  simp only [keySchema, keyIssues, List.isEmpty_iff, List.append_eq_nil_iff, ← includes_iff]
  constructor
  · rintro ⟨⟨⟨⟨hmin, hmax⟩, hmatch⟩, hdots⟩, hslashes⟩
    refine ⟨?_, ?_, ?_, ?_, ?_⟩
    · by_contra hno
      simp [show jsLength v < 1 by omega] at hmin
    · by_contra hno
      simp [show 512 < jsLength v by omega] at hmax
    · by_contra hno
      simp [hno] at hmatch
    · intro hno
      simp [hno] at hdots
    · intro hno
      simp [hno] at hslashes
  · rintro ⟨hmin, hmax, hmatch, hdots, hslashes⟩
    simp [hmatch, hdots, hslashes, show ¬jsLength v < 1 by omega, show ¬512 < jsLength v by omega]

/-! ## What a body and a UUID are made of -/

/-- Letters, digits and hyphens. -/
def isPlain (c : Char) : Bool := isAlphanum c || c = '-'

theorem isKeyChar_of_plain {c : Char} (h : isPlain c = true) : isKeyChar c = true := by
  simp only [isPlain, isKeyChar, Bool.or_eq_true, decide_eq_true_eq] at h ⊢
  rcases h with h | h
  · exact .inl (.inl (.inl (.inl h)))
  · exact .inr h

theorem safeScope_plain {scope : List Char} (h : SAFE_SCOPE scope = true) :
    scope ≠ [] ∧ ∀ c ∈ scope, isPlain c = true := by
  cases scope with
  | nil => cases h
  | cons c cs =>
      simp only [SAFE_SCOPE, Bool.and_eq_true, List.all_eq_true] at h
      obtain ⟨⟨hc, -⟩, hcs⟩ := h
      refine ⟨List.cons_ne_nil _ _, List.forall_mem_cons.2 ⟨?_, fun x hx => ?_⟩⟩
      · simp [isPlain, isAlphanum, hc]
      · have hx := hcs x hx
        simp only [isPlain, isAlphanum, Bool.or_eq_true] at hx ⊢
        rcases hx with (hlower | hdigit) | hhyphen
        · exact .inl (.inl (.inl hlower))
        · exact .inl (.inr hdigit)
        · exact .inr hhyphen

theorem scope_plain {settings : UploadSettings} {r : PresignUploadRequest}
    {body : PresignUploadBody} (h : presignUploadBodySchema settings r = some body) :
    body.scope.toList ≠ [] ∧ (∀ c ∈ body.scope.toList, isPlain c = true) ∧
      SAFE_FILENAME body.filename.toList = true := by
  unfold presignUploadBodySchema at h
  obtain ⟨hok, hbody⟩ := Option.ite_none_right_eq_some.1 h
  obtain rfl := Option.some.inj hbody
  simp only [Bool.and_eq_true] at hok
  obtain ⟨⟨⟨⟨⟨-, hfilename⟩, -⟩, -⟩, hscope⟩, -⟩ := hok
  rw [← and_assoc]
  refine ⟨?_, hfilename⟩
  dsimp only
  cases hr : r.scope with
  | none => exact safeScope_plain (show SAFE_SCOPE "uploads".toList = true by decide)
  | some scope =>
      rw [hr] at hscope
      exact safeScope_plain hscope

theorem Uuid.plain (uuid : Uuid) : ∀ c ∈ uuid.text.toList, isPlain c = true := by
  intro c hc
  have hle : 'f' ≤ 'z' := by decide
  simp only [isPlain, isAlphanum, Bool.or_eq_true, Bool.and_eq_true, decide_eq_true_eq]
  rcases uuid.wf.2 c hc with hdigit | ⟨hge, hle'⟩ | hhyphen
  · exact .inl (.inr hdigit)
  · exact .inl (.inl (.inl ⟨hge, Char.le_trans hle' hle⟩))
  · exact .inr hhyphen

theorem Uuid.length (uuid : Uuid) : uuid.text.toList.length = 36 := by
  obtain ⟨-, htext, -⟩ := separated_splitOnChar '-' uuid.text.toList
  have hcount : (splitOnChar '-' uuid.text.toList).length = 5 := by
    simpa using congrArg List.length uuid.wf.1
  rw [← htext, length_separated, uuid.wf.1, hcount]
  rfl

theorem plain_not_mem {cs : List Char} (h : ∀ c ∈ cs, isPlain c = true) {c : Char}
    (hc : isPlain c = false) : c ∉ cs := by
  intro hmem
  rw [h c hmem] at hc
  cases hc

theorem lt_of_keyChar {c : Char} (h : isKeyChar c = true ∨ c = ' ') : c.toNat < 0x80 := by
  have hle : ∀ d : Char, c ≤ d → c.toNat ≤ d.toNat := fun d hd => by
    simpa [Char.le_def, UInt32.le_iff_toNat_le] using hd
  rcases h with h | rfl
  · simp only [isKeyChar, isAlphanum, Bool.or_eq_true, Bool.and_eq_true, decide_eq_true_eq] at h
    rcases h with ((((((⟨-, h⟩ | ⟨-, h⟩) | ⟨-, h⟩) | rfl) | rfl) | rfl) | rfl)
    · exact Nat.lt_of_le_of_lt (hle _ h) (by decide)
    · exact Nat.lt_of_le_of_lt (hle _ h) (by decide)
    · exact Nat.lt_of_le_of_lt (hle _ h) (by decide)
    all_goals decide
  · decide

theorem safeFilename_iff {name : List Char} (h : SAFE_FILENAME name = true) :
    (∀ c ∈ name, isKeyChar c = true ∨ c = ' ') ∧ '/' ∉ name := by
  simp only [SAFE_FILENAME, Bool.and_eq_true, List.all_eq_true] at h
  constructor
  · intro c hc
    have hc := h.2 c hc
    simp only [isKeyChar, Bool.or_eq_true, decide_eq_true_eq] at hc ⊢
    tauto
  · intro hslash
    exact absurd (h.2 '/' hslash) (by decide)

/-! ## The key -/

/-- A text with a separator that a part does not have in it has that part on one
side of it. -/
theorem infix_append_iff {α : Type} {part left right : List α} {x : α} (hx : x ∉ part) :
    part <:+: left ++ x :: right ↔ part <:+: left ∨ part <:+: right := by
  constructor
  · rintro ⟨before, after, h⟩
    rw [List.append_assoc] at h
    rcases List.append_eq_append_iff.1 h with ⟨c, rfl, hc⟩ | ⟨c, rfl, hc⟩
    · rcases List.append_eq_append_iff.1 hc with ⟨d, rfl, -⟩ | ⟨d, rfl, hd⟩
      · exact .inl ⟨before, d, by simp⟩
      · cases d with
        | nil => exact .inl ⟨before, [], by simp⟩
        | cons y d =>
            obtain ⟨rfl, -⟩ := List.cons.inj hd
            exact absurd (List.mem_append_right c List.mem_cons_self) hx
    · cases c with
      | nil =>
          rw [List.nil_append] at hc
          cases part with
          | nil => exact .inl (List.nil_infix)
          | cons y part =>
              obtain ⟨rfl, -⟩ := List.cons.inj hc
              exact absurd List.mem_cons_self hx
      | cons y c =>
          obtain ⟨-, hc⟩ := List.cons.inj hc
          exact .inr ⟨c, after, by rw [hc, List.append_assoc]; rfl⟩
  · rintro (hleft | hright)
    · exact hleft.trans (List.prefix_append _ _).isInfix
    · exact hright.trans ((List.suffix_cons x right).trans (List.suffix_append _ _)).isInfix

theorem keyOf_toList (ownerId scope : String) (uuid : Uuid) (filename : String) :
    (keyOf ownerId scope uuid filename).toList = ownerId.toList ++ '/' ::
      (scope.toList ++ '/' :: (uuid.text.toList ++ '-' :: filename.toList)) := by
  simp [keyOf]

section Key

variable {ownerId scope filename : String} (uuid : Uuid)

theorem matchesKey_iff (howner : ∀ c ∈ ownerId.toList, isAlphanum c = true)
    (hscope : ∀ c ∈ scope.toList, isPlain c = true)
    (hname : SAFE_FILENAME filename.toList = true) :
    matchesKey (keyOf ownerId scope uuid filename).toList = true ↔
      ownerId ≠ "" ∧ ' ' ∉ filename.toList := by
  have hslash : isKeyChar '/' = true := by decide
  have hhyphen : isKeyChar '-' = true := by decide
  have hrest : (scope.toList ++ '/' :: (uuid.text.toList ++ '-' :: filename.toList)).all isKeyChar =
      true ↔ ' ' ∉ filename.toList := by
    have hchars : ∀ cs : List Char, (∀ c ∈ cs, isPlain c = true) → cs.all isKeyChar = true :=
      fun cs h => List.all_eq_true.2 fun c hc => isKeyChar_of_plain (h c hc)
    simp only [List.all_append, List.all_cons, hchars _ hscope, hchars _ uuid.plain, hslash,
      hhyphen, Bool.true_and, List.all_eq_true]
    constructor
    · intro h hspace
      exact absurd (h ' ' hspace) (by decide)
    · intro h c hc
      rcases (safeFilename_iff hname).1 c hc with hkey | rfl
      · exact hkey
      · exact absurd hc h
  rw [keyOf_toList]
  cases hchars : ownerId.toList with
  | nil =>
      have hempty : ownerId = "" := String.toList_eq_nil_iff.1 hchars
      simp [matchesKey, hempty, isAlphanum]
  | cons c cs =>
      have hne : ownerId ≠ "" := fun h => by simp [h] at hchars
      rw [hchars] at howner
      obtain ⟨hc, hcs⟩ := List.forall_mem_cons.1 howner
      have hall : cs.all isKeyChar = true := by
        rw [List.all_eq_true]
        intro x hx
        exact isKeyChar_of_plain (by simp [isPlain, hcs x hx])
      rw [List.cons_append, matchesKey, hc, List.all_append, hall, List.all_cons, hslash,
        Bool.true_and, Bool.true_and, Bool.true_and, hrest, and_iff_right hne]

theorem dots_iff (howner : ∀ c ∈ ownerId.toList, isAlphanum c = true)
    (hscope : ∀ c ∈ scope.toList, isPlain c = true) :
    ['.', '.'] <:+: (keyOf ownerId scope uuid filename).toList ↔
      ['.', '.'] <:+: filename.toList := by
  have hno : ∀ cs : List Char, '.' ∉ cs → ¬['.', '.'] <:+: cs :=
    fun cs h hin => h (hin.subset List.mem_cons_self)
  have howner' : '.' ∉ ownerId.toList :=
    plain_not_mem (fun c hc => by simp [isPlain, howner c hc]) (by decide)
  rw [keyOf_toList, infix_append_iff (by decide), infix_append_iff (by decide),
    infix_append_iff (by decide)]
  simp [hno _ howner', hno _ (plain_not_mem hscope (by decide)),
    hno _ (plain_not_mem uuid.plain (by decide))]

/-- No two slashes follow each other, as no part before a slash is empty. -/
theorem no_slashes (hne : ownerId ≠ "")
    (howner : ∀ c ∈ ownerId.toList, isAlphanum c = true) (hscopeNe : scope.toList ≠ [])
    (hscope : ∀ c ∈ scope.toList, isPlain c = true)
    (hname : SAFE_FILENAME filename.toList = true) :
    ¬['/', '/'] <:+: (keyOf ownerId scope uuid filename).toList := by
  have howner' : '/' ∉ ownerId.toList :=
    plain_not_mem (fun c hc => by simp [isPlain, howner c hc]) (by decide)
  have htail : '/' ∉ uuid.text.toList ++ '-' :: filename.toList := by
    simp [plain_not_mem uuid.plain (show isPlain '/' = false by decide), (safeFilename_iff hname).2]
  rintro ⟨before, after, h⟩
  have hparts : splitOnChar '/' (keyOf ownerId scope uuid filename).toList =
      [ownerId.toList, scope.toList, uuid.text.toList ++ '-' :: filename.toList] := by
    rw [keyOf_toList, splitOnChar_append howner', splitOnChar_append
      (plain_not_mem hscope (by decide)), splitOnChar_of_not_mem htail]
  have hempty : [] ∈ splitOnChar '/' (keyOf ownerId scope uuid filename).toList := by
    rw [← h, List.append_assoc, List.cons_append, splitOnChar_append_sep]
    refine List.mem_append_right _ ?_
    rw [List.cons_append, splitOnChar, if_pos rfl]
    exact List.mem_cons_self
  rw [hparts] at hempty
  simp [hscopeNe.symm, hne] at hempty

theorem jsLength_keyOf (howner : ∀ c ∈ ownerId.toList, isAlphanum c = true)
    (hscope : ∀ c ∈ scope.toList, isPlain c = true)
    (hname : SAFE_FILENAME filename.toList = true) :
    jsLength (keyOf ownerId scope uuid filename) =
      ownerId.length + scope.length + filename.length + 39 := by
  have hascii : ∀ c ∈ (keyOf ownerId scope uuid filename).toList, c.toNat < 0x80 := by
    intro c hc
    refine lt_of_keyChar ?_
    rw [keyOf_toList] at hc
    simp only [List.mem_append, List.mem_cons] at hc
    rcases hc with hc | rfl | hc | rfl | hc | rfl | hc
    · exact .inl (isKeyChar_of_plain (by simp [isPlain, howner c hc]))
    · exact .inl (by decide)
    · exact .inl (isKeyChar_of_plain (hscope c hc))
    · exact .inl (by decide)
    · exact .inl (isKeyChar_of_plain (uuid.plain c hc))
    · exact .inl (by decide)
    · exact (safeFilename_iff hname).1 c hc
  rw [jsLength_ascii hascii, keyOf_toList]
  simp only [List.length_append, List.length_cons, uuid.length, String.length_toList]
  omega

end Key

theorem keySchema_keyOf {settings : UploadSettings} {r : PresignUploadRequest}
    {body : PresignUploadBody} (h : presignUploadBodySchema settings r = some body)
    {ownerId : String} (howner : ∀ c ∈ ownerId.toList, isAlphanum c = true) (uuid : Uuid) :
    keySchema (keyOf ownerId body.scope uuid body.filename) = true ↔ FitsKey ownerId body := by
  obtain ⟨hscopeNe, hscope, hname⟩ := scope_plain h
  rw [keySchema_iff, jsLength_keyOf uuid howner hscope hname,
    matchesKey_iff uuid howner hscope hname, dots_iff uuid howner hscope]
  constructor
  · rintro ⟨-, hmax, ⟨hne, hspace⟩, hdots, -⟩
    exact ⟨hne, hspace, hdots, hmax⟩
  · rintro ⟨hne, hspace, hdots, hmax⟩
    exact ⟨by omega, hmax, ⟨hne, hspace⟩, hdots, no_slashes uuid hne howner hscopeNe hscope hname⟩

/-! ## The way back -/

/-- A public URL is taken back to the key it was made of, if that is a key. -/
theorem keyFromPublicUrl_publicUrlFor (s : S3StorageService) (key : String) :
    s.keyFromPublicUrl (s.publicUrlFor key) = if keySchema key then some key else none := by
  have htext : (s.publicUrl ++ "/" ++ key).toList = (s.publicUrl ++ "/").toList ++ key.toList :=
    String.toList_append
  have hprefix : (s.publicUrl ++ "/").toList.isPrefixOf
      ((s.publicUrl ++ "/").toList ++ key.toList) = true :=
    List.isPrefixOf_iff_prefix.2 (List.prefix_append _ _)
  rw [S3StorageService.keyFromPublicUrl, S3StorageService.publicUrlFor, htext, hprefix,
    List.drop_left, String.ofList_toList]
  rfl

theorem isOwnedBy_keyOf (ownerId scope : String) (uuid : Uuid) (filename : String) :
    isOwnedBy (keyOf ownerId scope uuid filename) ownerId = true := by
  rw [isOwnedBy, keyOf_toList, List.isPrefixOf_iff_prefix]
  exact ⟨scope.toList ++ '/' :: (uuid.text.toList ++ '-' :: filename.toList), by simp⟩

theorem createUploadUrl_eq_ok {settings : UploadSettings} {storage : S3StorageService}
    {sha256Hex : String → String} {uuid : Uuid} {ownerId : String} {body : PresignUploadBody}
    {out : CreateUploadUrlOutput} {events : List UploadEvent}
    (h : createUploadUrl settings storage sha256Hex uuid ownerId body = (.ok out, events)) :
    out.key = keyOf ownerId body.scope uuid body.filename ∧
      out.publicUrl = storage.publicUrlFor out.key := by
  unfold createUploadUrl at h
  dsimp only at h
  split at h
  · cases h
  · cases h
    exact ⟨rfl, rfl⟩

/-! ## The object behind a key -/

/-- What an owner has uploaded as declared is confirmed. -/
theorem confirmUpload_of_declared {storage : S3StorageService} {sha256Hex : String → String}
    {ownerId key : String} (howned : isOwnedBy key ownerId = true) {head : ObjectMetadata}
    (hhead : storage.calls.headObject key = .ok head) {expectedSize : Int}
    (hsize : head.size ≤ expectedSize) :
    (confirmUpload storage sha256Hex ownerId key expectedSize head.contentType).1 =
      .ok ⟨key, head.size, head.contentType, storage.publicUrlFor key⟩ := by
  have hnot : (decide (expectedSize < head.size) || decide (head.contentType ≠ head.contentType)) =
      false := by
    rw [decide_eq_false (by omega), decide_eq_false fun hne => hne rfl]
    rfl
  simp only [confirmUpload, howned, Bool.not_true, hhead, hnot]
  rfl

theorem createDownloadUrl_of_owned {settings : UploadSettings} {storage : S3StorageService}
    {ownerId key : String} (howned : isOwnedBy key ownerId = true) (seconds : Int) :
    createDownloadUrl settings storage ownerId key seconds =
      storage.calls.presignDownload key (clampTtl settings seconds) := by
  rw [createDownloadUrl, howned]
  rfl

/-- An issued key is accepted back, and by its public URL as well, exactly when
owner and file name fit the grammar of keys; then the object is deleted by either.
The service itself lets every issued key through to the object store: what was
uploaded as declared is confirmed, and its download is signed. -/
theorem issued_key_accepted_iff {settings : UploadSettings} {r : PresignUploadRequest}
    {body : PresignUploadBody} (hbody : presignUploadBodySchema settings r = some body)
    {ownerId : String} (howner : ∀ c ∈ ownerId.toList, isAlphanum c = true)
    {calls : StorageCalls} {publicUrl : String} {sha256Hex : String → String} {uuid : Uuid}
    {out : CreateUploadUrlOutput} {events : List UploadEvent}
    (h : createUploadUrl settings (S3StorageService.create calls publicUrl) sha256Hex uuid ownerId
      body = (.ok out, events)) :
    let storage := S3StorageService.create calls publicUrl
    ((keySchema out.key = true ∧
        storage.keyFromPublicUrl (storage.publicUrlFor out.key) = some out.key) ↔
      FitsKey ownerId body) ∧
    isOwnedBy out.key ownerId = true ∧
    (FitsKey ownerId body → deleteUpload storage sha256Hex ownerId (.url out.publicUrl) =
      deleteUpload storage sha256Hex ownerId (.key out.key)) ∧
    (∀ head, calls.headObject out.key = .ok head → head.size ≤ out.expectedSize →
      head.contentType = out.expectedContentType →
      (confirmUpload storage sha256Hex ownerId out.key out.expectedSize
          out.expectedContentType).1 =
        .ok ⟨out.key, head.size, head.contentType, out.publicUrl⟩) ∧
    ∀ seconds, createDownloadUrl settings storage ownerId out.key seconds =
      calls.presignDownload out.key (clampTtl settings seconds) := by
  obtain ⟨hkey, hurl⟩ := createUploadUrl_eq_ok h
  have hschema := keySchema_keyOf hbody howner uuid
  rw [← hkey] at hschema
  have howned : isOwnedBy out.key ownerId = true := hkey ▸ isOwnedBy_keyOf _ _ _ _
  refine ⟨?_, howned, fun hfits => ?_, fun head hhead hsize htype => ?_,
    fun seconds => createDownloadUrl_of_owned howned seconds⟩
  · rw [keyFromPublicUrl_publicUrlFor, ← hschema]
    constructor
    · exact fun hboth => hboth.1
    · intro hok
      exact ⟨hok, if_pos hok⟩
  · have hback := keyFromPublicUrl_publicUrlFor (S3StorageService.create calls publicUrl) out.key
    rw [if_pos (hschema.2 hfits), ← hurl] at hback
    rw [deleteUpload, deleteUpload, hback]
  · rw [← htype, hurl]
    exact confirmUpload_of_declared howned hhead hsize

/-! ## Two uploads -/

def isUuidChar (c : Char) : Bool := ('0' ≤ c && c ≤ '9') || ('a' ≤ c && c ≤ 'f') || c = '-'

theorem uuid_wf {text : String}
    (hgroups : (splitOnChar '-' text.toList).map List.length = [8, 4, 4, 4, 12])
    (hall : text.toList.all isUuidChar = true) :
    (splitOnChar '-' text.toList).map List.length = [8, 4, 4, 4, 12] ∧
      ∀ c ∈ text.toList, ('0' ≤ c ∧ c ≤ '9') ∨ ('a' ≤ c ∧ c ≤ 'f') ∨ c = '-' := by
  refine ⟨hgroups, fun c hc => ?_⟩
  have := List.all_eq_true.1 hall c hc
  simpa only [isUuidChar, Bool.or_eq_true, Bool.and_eq_true, decide_eq_true_eq, or_assoc] using this

def anyUuid : Uuid :=
  ⟨"0b6f0e5c-8f1d-4a5e-9c07-2f4de1a7c3b9", uuid_wf (by decide +kernel) (by decide +kernel)⟩

def plainCalls : StorageCalls where
  presignUpload input := .ok ⟨"https://s3.test/" ++ input.key, "2025-01-01T00:00:00.000Z"⟩
  presignDownload key _ := .ok ⟨"https://s3.test/" ++ key, "2025-01-01T00:00:00.000Z"⟩
  headObject _ := .ok ⟨1024, "image/png"⟩
  deleteObject _ := .ok ()

def uploadSettings : UploadSettings := ⟨52428800, 60, 86400⟩

theorem issued_key_accepted_iff_avatar :
    ∃ key publicUrl,
      (createUploadUrl uploadSettings (S3StorageService.create plainCalls "https://cdn.test/") id
        anyUuid "user1" ⟨"avatar.png", "image/png", 1024, "avatar", 300⟩).1 =
          .ok ⟨"https://s3.test/" ++ key, key, publicUrl, "2025-01-01T00:00:00.000Z", 1024,
            "image/png"⟩ ∧
      keySchema key = true := by
  refine ⟨_, _, rfl, ?_⟩
  refine ((@issued_key_accepted_iff uploadSettings
    ⟨"avatar.png", "image/png", 1024, some "avatar", none⟩
    ⟨"avatar.png", "image/png", 1024, "avatar", 300⟩ ?_ "user1" ?_ plainCalls
    "https://cdn.test/" id anyUuid _ _ rfl).1.2 ?_).1
  · decide
  · exact List.all_eq_true.1 (by decide)
  · unfold FitsKey
    decide

/-- A name is accepted, and the key that is issued for it is not accepted back. -/
def IssuedAndRefused (filename : String) : Prop :=
  presignUploadBodySchema uploadSettings ⟨filename, "image/png", 1024, none, none⟩ =
      some ⟨filename, "image/png", 1024, "uploads", 300⟩ ∧
    ∃ out events, createUploadUrl uploadSettings
        (S3StorageService.create plainCalls "https://cdn.test") id anyUuid "user1"
        ⟨filename, "image/png", 1024, "uploads", 300⟩ = (.ok out, events) ∧
      keySchema out.key = false ∧
      (S3StorageService.create plainCalls "https://cdn.test").keyFromPublicUrl out.publicUrl =
        none

/-- A file name with a space in it, and one with two dots in a row. -/
theorem issued_key_refused : IssuedAndRefused "my file.pdf" ∧ IssuedAndRefused "a..b.png" :=
  ⟨⟨by decide, _, _, rfl, by decide, by decide⟩,
    ⟨by decide, _, _, rfl, by decide, by decide⟩⟩

end CleanStack.Uploads
