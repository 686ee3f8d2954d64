import CleanStack.Kit.JsText
import CleanStack.Kit.JsValue
import CleanStack.Kit.Net
import CleanStack.Kit.Utf16
import CleanStack.Uploads.Storage

/-!
# Upload keys

A client asks for a URL to upload to and is given a key; with the key, or with
the public URL made of it, it confirms, downloads and deletes the object later.
What may stand in a file name is one grammar, what may stand in a key another.

A body is checked here after its fields are known to be strings and integers.
What the object store answers, the SHA-256 of a text and the random UUID are
given to the functions that ask for them.
-/

namespace CleanStack.Uploads

open CleanStack.Admin (AppError)
open CleanStack.Kit

abbrev StorageError := AppError

/-! ## Keys -/

def isAlphanum (c : Char) : Bool :=
  ('a' ≤ c && c ≤ 'z') || ('A' ≤ c && c ≤ 'Z') || ('0' ≤ c && c ≤ '9')

/-- Letters, digits, dots, underscores, slashes and hyphens. -/
def isKeyChar (c : Char) : Bool := isAlphanum c || c = '.' || c = '_' || c = '/' || c = '-'

inductive KeyIssue
  | tooSmall
  | tooBig
  | invalidFormat (message : String)
  | custom (message : String)
  deriving DecidableEq, Repr

/-- A letter or a digit, then such characters up to the end. -/
def matchesKey : List Char → Bool
  | [] => false
  | c :: cs => isAlphanum c && cs.all isKeyChar

/-- Every check is made; each that fails leaves its issue. -/
def keyIssues (v : String) : List KeyIssue :=
  (if jsLength v < 1 then [.tooSmall] else []) ++
  (if 512 < jsLength v then [.tooBig] else []) ++
  (if matchesKey v.toList then [] else [.invalidFormat "invalid key characters"]) ++
  (if includes v.toList ['.', '.'] then [.custom "key must not contain .. segments"] else []) ++
  (if includes v.toList ['/', '/'] then
    [.custom "key must not contain consecutive slashes"] else [])

/-- `keySchema.safeParse(v).success`. -/
def keySchema (v : String) : Bool := (keyIssues v).isEmpty

/-! ## Requests -/

structure UploadSettings where
  maxUploadBytes : Int
  presignTtlMinSeconds : Int
  presignTtlMaxSeconds : Int

structure PresignUploadRequest where
  filename : String
  contentType : String
  size : Int
  scope : Option String
  expiresInSeconds : Option Int

structure PresignUploadBody where
  filename : String
  contentType : String
  size : Int
  scope : String
  expiresInSeconds : Int
  deriving DecidableEq

/-- `^[\w\-. ]+$`. -/
def SAFE_FILENAME (v : List Char) : Bool :=
  !v.isEmpty && v.all fun c => isAlphanum c || c = '_' || c = '-' || c = '.' || c = ' '

/-- `^[a-z][a-z0-9-]{0,31}$`. -/
def SAFE_SCOPE : List Char → Bool
  | [] => false
  | c :: cs => ('a' ≤ c && c ≤ 'z') && cs.length ≤ 31 &&
      cs.all fun c => ('a' ≤ c && c ≤ 'z') || ('0' ≤ c && c ≤ '9') || c = '-'

def MAX_SAFE_INTEGER : Int := 2 ^ 53 - 1

def presignUploadBodySchema (settings : UploadSettings) (r : PresignUploadRequest) :
    Option PresignUploadBody :=
  let scope := r.scope.getD "uploads"
  let expiresInSeconds := r.expiresInSeconds.getD (settings.presignTtlMinSeconds * 5)
  let filenameOk := 1 ≤ jsLength r.filename && jsLength r.filename ≤ 200 &&
    SAFE_FILENAME r.filename.toList
  let contentTypeOk := 1 ≤ jsLength r.contentType && jsLength r.contentType ≤ 120
  let sizeOk := 0 < r.size && r.size ≤ settings.maxUploadBytes && r.size ≤ MAX_SAFE_INTEGER
  -- The default of a field is not checked.
  let scopeOk := match r.scope with
    | none => true
    | some scope => SAFE_SCOPE scope.toList
  let expiresOk := match r.expiresInSeconds with
    | none => true
    | some seconds => 0 < seconds && seconds ≤ MAX_SAFE_INTEGER
  if filenameOk && contentTypeOk && sizeOk && scopeOk && expiresOk then
    some ⟨r.filename, r.contentType, r.size, scope, expiresInSeconds⟩
  else none

/-! ## The object store -/

structure PresignUploadInput where
  key : String
  contentType : String
  size : Int
  expiresInSeconds : Int

structure PresignedUrl where
  url : String
  expiresAt : String

structure ObjectMetadata where
  size : Int
  contentType : String

/-- What the object store answers to the calls of `IStorageService`. -/
structure StorageCalls where
  presignUpload : PresignUploadInput → Except StorageError PresignedUrl
  presignDownload : String → Int → Except StorageError PresignedUrl
  headObject : String → Except StorageError ObjectMetadata
  deleteObject : String → Except StorageError Unit

/-- The public URL as the constructor keeps it. -/
def withoutTrailingSlashes (url : String) : String :=
  String.ofList (url.toList.reverse.dropWhile (· = '/')).reverse

structure S3StorageService where
  calls : StorageCalls
  publicUrl : String

def S3StorageService.create (calls : StorageCalls) (publicUrl : String) : S3StorageService :=
  ⟨calls, withoutTrailingSlashes publicUrl⟩

def S3StorageService.publicUrlFor (s : S3StorageService) (key : String) : String :=
  s.publicUrl ++ "/" ++ key

def S3StorageService.keyFromPublicUrl (s : S3StorageService) (url : String) : Option String :=
  let start := s.publicUrl ++ "/"
  if !start.toList.isPrefixOf url.toList then none
  else
    let key := String.ofList (url.toList.drop start.toList.length)
    if keySchema key then some key else none

/-! ## The service -/

/-- A random UUID: five groups of lower-case hexadecimal digits. -/
structure Uuid where
  text : String
  wf : (splitOnChar '-' text.toList).map List.length = [8, 4, 4, 4, 12] ∧
    ∀ c ∈ text.toList, ('0' ≤ c ∧ c ≤ '9') ∨ ('a' ≤ c ∧ c ≤ 'f') ∨ c = '-'

/-- An event, as it is given to `emitEvent`. -/
structure UploadEvent where
  eventType : String
  aggregateType : String
  aggregateId : String
  payload : List (String × JsValue)

def NOT_OWNED : StorageError :=
  ⟨"STORAGE_FORBIDDEN", "key does not belong to the requesting owner"⟩

def isOwnedBy (key ownerId : String) : Bool := (ownerId ++ "/").toList.isPrefixOf key.toList

/-- The first 16 digits of the SHA-256 of the key. -/
def hashKey (sha256Hex : String → String) (key : String) : String :=
  String.ofList ((sha256Hex key).toList.take 16)

def clampTtl (settings : UploadSettings) (seconds : Int) : Int :=
  min (max seconds settings.presignTtlMinSeconds) settings.presignTtlMaxSeconds

structure CreateUploadUrlOutput where
  url : String
  key : String
  publicUrl : String
  expiresAt : String
  expectedSize : Int
  expectedContentType : String

def keyOf (ownerId scope : String) (uuid : Uuid) (filename : String) : String :=
  ownerId ++ "/" ++ scope ++ "/" ++ uuid.text ++ "-" ++ filename

def createUploadUrl (settings : UploadSettings) (storage : S3StorageService)
    (sha256Hex : String → String) (uuid : Uuid) (ownerId : String) (input : PresignUploadBody) :
    Except StorageError CreateUploadUrlOutput × List UploadEvent :=
  let ttl := clampTtl settings input.expiresInSeconds
  let key := keyOf ownerId input.scope uuid input.filename
  match storage.calls.presignUpload ⟨key, input.contentType, input.size, ttl⟩ with
  | .error e => (.error e, [])
  | .ok presigned =>
      let hashedKey := hashKey sha256Hex key
      (.ok ⟨presigned.url, key, storage.publicUrlFor key, presigned.expiresAt, input.size,
        input.contentType⟩,
        [⟨"upload.requested", "upload", hashedKey,
          [("userId", .str ownerId), ("key", .str hashedKey),
            ("contentType", .str input.contentType), ("size", .num (JsNumber.ofInt input.size))]⟩])

structure ConfirmUploadOutput where
  key : String
  size : Int
  contentType : String
  publicUrl : String

def confirmUpload (storage : S3StorageService) (sha256Hex : String → String)
    (ownerId key : String) (expectedSize : Int) (expectedContentType : String) :
    Except StorageError ConfirmUploadOutput × List UploadEvent :=
  if !isOwnedBy key ownerId then (.error NOT_OWNED, [])
  else
    match storage.calls.headObject key with
    | .error e => (.error e, [])
    | .ok head =>
        let sizeExceeded := expectedSize < head.size
        if sizeExceeded || head.contentType ≠ expectedContentType then
          match storage.calls.deleteObject key with
          | .error e => (.error e, [])
          | .ok _ =>
              (.error ⟨"STORAGE_INTEGRITY_FAILED",
                if sizeExceeded then
                  "uploaded size " ++ toString head.size ++ " exceeds declared " ++
                    toString expectedSize
                else
                  "uploaded content-type " ++ head.contentType ++ " does not match declared " ++
                    expectedContentType⟩, [])
        else
          let hashedKey := hashKey sha256Hex key
          (.ok ⟨key, head.size, head.contentType, storage.publicUrlFor key⟩,
            [⟨"upload.confirmed", "upload", hashedKey,
              [("userId", .str ownerId), ("key", .str hashedKey),
                ("size", .num (JsNumber.ofInt head.size)),
                ("contentType", .str head.contentType)]⟩])

def createDownloadUrl (settings : UploadSettings) (storage : S3StorageService)
    (ownerId key : String) (expiresInSeconds : Int) : Except StorageError PresignedUrl :=
  if !isOwnedBy key ownerId then .error NOT_OWNED
  else storage.calls.presignDownload key (clampTtl settings expiresInSeconds)

/-- An object to delete is named by its key or by its public URL. -/
inductive DeleteUploadInput
  | key (key : String)
  | url (url : String)

/-- `true` when an object was deleted. -/
def deleteUpload (storage : S3StorageService) (sha256Hex : String → String) (ownerId : String)
    (input : DeleteUploadInput) : Except StorageError Bool × List UploadEvent :=
  let resolved := match input with
    | .key key => some key
    | .url url => storage.keyFromPublicUrl url
  match resolved with
  | none => (.ok false, [])
  | some key =>
      if !isOwnedBy key ownerId then (.error NOT_OWNED, [])
      else
        match storage.calls.deleteObject key with
        | .error e => (.error e, [])
        | .ok _ =>
            let hashedKey := hashKey sha256Hex key
            (.ok true, [⟨"upload.deleted", "upload", hashedKey,
              [("userId", .str ownerId), ("key", .str hashedKey)]⟩])

end CleanStack.Uploads
