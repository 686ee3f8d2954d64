import CleanStack.Rgpd.AccountDeletion
import CleanStack.Uploads.Storage

/-!
# Wiping an account and its objects

`executeAccountWipe` in full: it reads the user, commits the wipe in one
transaction, and then lists and deletes the objects under the user's prefix. The
transaction is over by then, so whatever becomes of the objects, the account is
wiped.

Between the read and the transaction another wipe of the account may have
committed; the transaction then finds nothing to do, and the objects are listed
and deleted all the same.
-/

namespace CleanStack.Rgpd

open CleanStack.Admin CleanStack.Drizzle CleanStack.Lib CleanStack.Uploads

structure ExecuteAccountWipeOutput where
  deletedOrgIds : List String
  storageKeysDeleted : Nat
  deriving DecidableEq

/-- How the transaction ends: with the organizations that went with the account,
with an error that rolls it back, or thrown. -/
inductive WipeTransaction
  | committed (deletedOrgIds : List String)
  | failed (error : AppError)
  | threw

/-- What is there after a call, what it logged, and what it returned unless the
process stopped. -/
structure WipeRun where
  db : StaffDb
  bucket : Bucket
  log : List LogLine
  result : Ending (Except AppError ExecuteAccountWipeOutput)

def userPrefix (userId : String) : String := userId ++ "/"

def orphanedByListing : String :=
  "storage prefix listing failed after wipe: orphaned blobs need manual cleanup"

def orphanedByDelete : String :=
  "storage prefix delete failed after wipe: orphaned blobs need manual cleanup"

def warning (userId : String) (error : AppError) (message : String) : LogLine :=
  ⟨.warn, [("userId", userId), ("code", error.code)], message⟩

/-- The keys it listed are counted, those it deleted and the others. -/
def purgeUserObjects (answers : StorageAnswers) (b : Bucket) (userId : String) :
    Bucket × List LogLine × Ending Nat :=
  let (log, list) := listObjectKeys answers.pages b (userPrefix userId)
  match list with
  | .done (.error e) => (b, log ++ [warning userId e orphanedByListing], .done 0)
  | .done (.ok keys) =>
      let (b, log, deleted) := deleteObjects answers.batches b keys
      match deleted with
      | .done (.error e) =>
          (b, log ++ [warning userId e orphanedByDelete], .done keys.length)
      | .done (.ok _) => (b, log, .done keys.length)
      | .threw => (b, log, .threw)
      | .stopped => (b, log, .stopped)
  | .threw => (b, log, .threw)
  | .stopped => (b, log, .stopped)

def wipeFailed : AppError := ⟨"ACCOUNT_WIPE_PROVIDER_FAILURE", "wipe transaction failed"⟩

/-- `read` and `readAt` are the database and the clock of the read, `db` and
`now` those of the transaction. -/
def executeAccountWipe (read : StaffDb) (readAt : Time) (db : StaffDb) (now : Time)
    (transaction : WipeTransaction) (answers : StorageAnswers) (b : Bucket) (userId : String) :
    WipeRun :=
  match read.users.find? userId with
  | none => ⟨db, b, [], .done (.error (deletionNotFound "user not found"))⟩
  | some user =>
      if user.deletedAt.isSome then ⟨db, b, [], .done (.ok ⟨[], 0⟩)⟩
      else if (user.pendingDeletionUntil.all fun d => readAt < d) = true then
        ⟨db, b, [], .done (.error (deletionNotFound
          "user is not in pending_deletion state or grace has not elapsed"))⟩
      else
        match transaction with
        | .threw =>
            ⟨db, b, [⟨.error, [("userId", userId)], "account wipe transaction failed"⟩],
              .done (.error wipeFailed)⟩
        | .failed e =>
            if e.code = "ACCOUNT_WIPE_NOTIFY_PROVIDER_FAILURE" then
              ⟨db, b, [⟨.error, [("userId", userId)],
                "account wipe rolled back: deletion confirmation could not be enqueued"⟩],
                .done (.error e)⟩
            else
              ⟨db, b, [⟨.error, [("userId", userId), ("code", e.code)],
                "account wipe transaction reported failure"⟩], .done (.error wipeFailed)⟩
        | .committed orgs =>
            let alreadyWiped := (executeWipe db userId now).2
            let (b, log, purged) := purgeUserObjects answers b userId
            ⟨wipeTransaction db userId now, b, log,
              match purged with
              | .done storageKeysDeleted =>
                  .done (.ok ⟨if alreadyWiped then [] else orgs, storageKeysDeleted⟩)
              | .threw => .threw
              | .stopped => .stopped⟩

end CleanStack.Rgpd
