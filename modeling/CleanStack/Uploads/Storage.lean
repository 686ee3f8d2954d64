import CleanStack.Admin.StaffService
import Mathlib.Data.List.Nodup

/-!
# Stored objects

`S3StorageService.listObjectKeys` and `deleteObjects`, over what the calls to the
object store come to. A call is answered or fails, and the process may stop at
any call, which is where the answers end.

A delete call removes some of its keys, whichever way it ends. Its answer names
the keys it could not remove; the code asks for a quiet answer and reads none of
it.
-/

namespace CleanStack.Uploads

open CleanStack.Admin (AppError)

structure Bucket where
  keys : List String
  nodup : keys.Nodup

def Bucket.under (b : Bucket) (keyPrefix : String) : List String :=
  b.keys.filter fun key => keyPrefix.toList.isPrefixOf key.toList

def Bucket.remove (b : Bucket) (chosen : String → Bool) : Bucket :=
  ⟨b.keys.filter fun key => !chosen key, b.nodup.filter _⟩

inductive LogLevel
  | warn
  | error
  deriving DecidableEq, Repr

structure LogLine where
  level : LogLevel
  fields : List (String × String)
  message : String
  deriving DecidableEq, Repr

/-- How a call ends, or some code that makes calls. -/
inductive Ending (α : Type)
  | done (a : α)
  | threw
  | stopped
  deriving DecidableEq

/-- A page has some of the keys that are left, and says whether more are. -/
inductive PageAnswer
  | page (size : Nat)
  | failed
  deriving DecidableEq

structure BatchAnswer where
  ending : Ending Unit
  removed : String → Bool

structure StorageAnswers where
  pages : List PageAnswer
  batches : List BatchAnswer

/-! ## Listing -/

/-- `rest` are the keys behind the continuation token. -/
def listLoop : List PageAnswer → List String → List String → Ending (List String)
  | [], _, _ => .stopped
  | .failed :: _, _, _ => .threw
  | .page size :: answers, rest, keys =>
      let keys := keys ++ rest.take size
      let isTruncated := size < rest.length
      if isTruncated then listLoop answers (rest.drop size) keys else .done keys

def storageFailure (message : String) : AppError := ⟨"STORAGE_PROVIDER_FAILURE", message⟩

def listObjectKeys (answers : List PageAnswer) (b : Bucket) (keyPrefix : String) :
    List LogLine × Ending (Except AppError (List String)) :=
  match listLoop answers (b.under keyPrefix) [] with
  | .done keys => ([], .done (.ok keys))
  | .threw =>
      ([⟨.error, [("prefix", keyPrefix)], "list object keys failed"⟩],
        .done (.error (storageFailure "list object keys failed")))
  | .stopped => ([], .stopped)

/-! ## Deleting -/

def S3_DELETE_BATCH : Nat := 1000

def deleteLoop : List BatchAnswer → List String → Bucket → Bucket × Ending Unit
  | [], keys, b => (b, if keys.isEmpty then .done () else .stopped)
  | answer :: answers, keys, b =>
      if keys.isEmpty then (b, .done ())
      else
        let batch := keys.take S3_DELETE_BATCH
        let b := b.remove fun key => batch.contains key && answer.removed key
        match answer.ending with
        | .done _ => deleteLoop answers (keys.drop S3_DELETE_BATCH) b
        | .threw => (b, .threw)
        | .stopped => (b, .stopped)

def deleteObjects (answers : List BatchAnswer) (b : Bucket) (keys : List String) :
    Bucket × List LogLine × Ending (Except AppError Unit) :=
  let (b, ending) := deleteLoop answers keys b
  match ending with
  | .done _ => (b, [], .done (.ok ()))
  | .threw =>
      (b, [⟨.error, [("count", toString keys.length)], "delete objects failed"⟩],
        .done (.error (storageFailure "delete objects failed")))
  | .stopped => (b, [], .stopped)

end CleanStack.Uploads
