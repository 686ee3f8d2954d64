import CleanStack.Coolify.Server
import CleanStack.Kit.JsText

/-!
# Deploying an image

Every target in turn: wait for its tasks, remember what it runs, write the release and
the image, start a deployment and poll it. What fails once something may have been
written is undone, and the rest of the targets is left alone.

Any call can fail, and one that fails may have taken effect all the same. How the calls
come out, what they answer and how often the clock lets a loop go round are given by a
script.
-/

namespace CleanStack.Coolify

open CleanStack.Kit CleanStack.Lib

/-! ## References -/

def isLowerHex (c : Char) : Bool := ('0' ≤ c && c ≤ '9') || ('a' ≤ c && c ≤ 'f')

/-- `/^[0-9a-f]{40}$/` -/
def RELEASE (release : String) : Bool :=
  release.toList.length = 40 && release.toList.all isLowerHex

def isOwnerChar (c : Char) : Bool :=
  ('a' ≤ c && c ≤ 'z') || ('0' ≤ c && c ≤ '9') || c = '-'

/-- Between the owner and the digest. -/
def digestMark (name : AppName) : List Char := ("/clean-stack-" ++ name.text ++ "@sha256:").toList

def registry : List Char := "ghcr.io/".toList

/-- `^ghcr\.io/([a-z0-9-]+)/clean-stack-(api|app|admin)@sha256:[0-9a-f]{64}$` -/
def DIGEST_REF (ref : List Char) : Bool :=
  let owner := (ref.drop registry.length).takeWhile isOwnerChar
  !owner.isEmpty && APP_ORDER.any fun name =>
    let digest := ref.drop (registry.length + owner.length + (digestMark name).length)
    digest.length = 64 && digest.all isLowerHex &&
      ref == registry ++ (owner ++ (digestMark name ++ digest))

def parseDigestRef (ref : String) : Except String String :=
  if DIGEST_REF ref.toList then .ok ref
  else .error ("image reference " ++ ref ++
    " refused: ghcr.io/<owner>/clean-stack-<api|app|admin> pinned by its sha256 digest is required")

/-- `ref.split("@")`, its first two parts. -/
def splitRef (ref : List Char) : List Char × List Char :=
  let rest := (ref.dropWhile fun c => c ≠ '@').drop 1
  (ref.takeWhile fun c => c ≠ '@', rest.takeWhile fun c => c ≠ '@')

/-! ## Calls -/

/-- `transient` is an answer of 500 or more, or none at all. -/
structure CallError where
  message : String
  transient : Bool

/-- A call that writes. -/
inductive Fate
  | done
  | failed (error : CallError) (tookEffect : Bool)

inductive EventKind
  | written
  | started (deployment : String)
  | seen (deployment status : String)

/-- What was sent for an application, and what was answered of its deployment. -/
structure DeployEvent where
  uuid : String
  kind : EventKind

structure World where
  stored : Applications
  events : List DeployEvent

def World.log (w : World) (uuid : String) (kind : EventKind) : World :=
  { w with events := w.events ++ [⟨uuid, kind⟩] }

def writeCall (w : World) (uuid : String) (f : Application → Application)
    (hf : ∀ a, (f a).uuid = a.uuid) : Fate → Except String Unit × World
  | .done => (.ok (), { w.log uuid .written with stored := w.stored.write uuid f hf })
  | .failed error tookEffect =>
      (.error error.message, { w.log uuid .written with
        stored := if tookEffect then w.stored.write uuid f hf else w.stored })

def withImage (imageName imageTag : String) (a : Application) : Application :=
  { a with imageName, imageTag }

theorem uuid_withImage (imageName imageTag : String) (a : Application) :
    (withImage imageName imageTag a).uuid = a.uuid := rfl

def withValues (values : List (String × String)) (a : Application) : Application :=
  { a with envs := putEnvs a.envs values }

theorem uuid_withValues (values : List (String × String)) (a : Application) :
    (withValues values a).uuid = a.uuid := rfl

/-- `setEnv`, which sends nothing where there is nothing to set. -/
def sendEnv (w : World) (uuid : String) (values : List (String × String)) (fate : Fate) :
    Except String Unit × World :=
  if values.isEmpty then (.ok (), w)
  else writeCall w uuid (withValues values) (uuid_withValues values) fate

structure Snapshot where
  image : String
  imageName : String
  imageTag : String
  env : List (String × Option String)

/-- The value of a key that is answered first, previews left out. -/
def firstValue (envs : List EnvEntry) (key : String) : Option String :=
  (envs.find? (EnvEntry.holds key)).map EnvEntry.value

def snapshotOf (a : Application) (sight : String → Bool) (keys : List String) : Snapshot :=
  { image :=
      if "sha256:".toList.isPrefixOf a.imageTag.toList then a.imageName ++ "@" ++ a.imageTag
      else a.imageName ++ ":" ++ a.imageTag
    imageName := a.imageName
    imageTag := a.imageTag
    env := keys.map fun key => (key, if sight key then firstValue a.envs key else none) }

def Snapshot.known (snapshot : Snapshot) : List (String × String) :=
  snapshot.env.filterMap fun entry => entry.2.map fun value => (entry.1, value)

def restore (w : World) (uuid : String) (snapshot : Snapshot) (imageFate envFate : Fate) :
    Except String Unit × World :=
  let patched := writeCall w uuid (withImage snapshot.imageName snapshot.imageTag)
    (uuid_withImage snapshot.imageName snapshot.imageTag) imageFate
  match patched.1 with
  | .error message => (.error message, patched.2)
  | .ok _ => sendEnv patched.2 uuid snapshot.known envFate

def FINISHED : String := "finished"

def FAILED : List String := ["failed", "cancelled", "cancelled-by-user", "error"]

def POLL_RETRIES : Nat := 3

/-- `left` is how many retries there still are; the answers are those of one poll. -/
def pollFrom (answers : Nat → Except CallError String) : Nat → Nat → Except CallError String
  | 0, attempt => answers attempt
  | left + 1, attempt =>
      match answers attempt with
      | .ok status => .ok status
      | .error error => if !error.transient then .error error else pollFrom answers left (attempt + 1)

def pollDeployment (answers : Nat → Except CallError String) : Except CallError String :=
  pollFrom answers POLL_RETRIES 0

/-- A poll for each time the loop is entered before the deadline. -/
def waitForDeployment (uuid id : String) (timeoutMs : Nat) :
    List (Nat → Except CallError String) → World → Except String Unit × World
  | [], w => (.error ("deployment " ++ id ++ " timed out after " ++ toString timeoutMs ++ " ms"), w)
  | poll :: polls, w =>
      match pollDeployment poll with
      | .error error => (.error error.message, w)
      | .ok status =>
          let w := w.log uuid (.seen id status)
          if status = FINISHED then (.ok (), w)
          else if FAILED.contains status then
            (.error ("deployment " ++ id ++ " ended with status " ++ status), w)
          else waitForDeployment uuid id timeoutMs polls w

/-- `started` are the identifiers the answer has, or its failure. -/
def deploy (w : World) (uuid image : String) (imageFate : Fate)
    (started : Except CallError (List String)) : Except String String × World :=
  match parseDigestRef image with
  | .error message => (.error message, w)
  | .ok ref =>
      let parts := splitRef ref.toList
      let patched := writeCall w uuid
        (withImage (String.ofList parts.1) (String.ofList parts.2))
        (uuid_withImage (String.ofList parts.1) (String.ofList parts.2)) imageFate
      match patched.1 with
      | .error message => (.error message, patched.2)
      | .ok _ =>
          match started with
          | .error error => (.error error.message, patched.2.log uuid .written)
          | .ok ids =>
              match ids.find? fun id => id ≠ "" with
              | none => (.error ("coolify answered no deployment id for application " ++ uuid),
                  patched.2.log uuid .written)
              | some id => (.ok id, patched.2.log uuid (.started id))

/-- The tasks that run when the wait is over. -/
def idleTasks : Except CallError (List String) → List (Except CallError (List String)) →
    Except String (List String)
  | .error error, _ => .error error.message
  | .ok running, later =>
      if running.isEmpty then .ok []
      else
        match later with
        | [] => .ok running
        | next :: later => idleTasks next later

/-! ## Targets -/

inductive Outcome
  | deployed (image : String)
  | restored (previous : Snapshot) (timedOut : Bool) (release : String)
  | unrestored (reason : String)
  | skipped
  | pending

def Outcome.isDeployed : Outcome → Bool
  | .deployed _ => true
  | _ => false

structure Target where
  name : AppName
  image : String
  app : CoolifyApp
  uuid : String

/-- How everything comes out for one target. -/
structure TargetScript where
  budgetSpent : Bool
  running : Except CallError (List String)
  runningLater : List (Except CallError (List String))
  snapshotError : Option CallError
  sight : String → Bool
  envFate : Fate
  imageFate : Fate
  started : Except CallError (List String)
  waitMs : Nat
  polls : List (Nat → Except CallError String)
  restoreImageFate : Fate
  restoreEnvFate : Fate

def releaseKeys (app : CoolifyApp) : List String :=
  (app.env.filter fun entry => entry.2 = .release).map Prod.fst

/-- The body of the inner `try`. -/
def deployTarget (release : String) (script : TargetScript) (t : Target) (w : World) :
    Except String Unit × World :=
  let set := sendEnv w t.uuid ((releaseKeys t.app).map fun key => (key, release)) script.envFate
  match set.1 with
  | .error message => (.error message, set.2)
  | .ok _ =>
      let deployment := deploy set.2 t.uuid t.image script.imageFate script.started
      match deployment.1 with
      | .error message => (.error message, deployment.2)
      | .ok id => waitForDeployment t.uuid id script.waitMs script.polls deployment.2

/-- The error that is thrown, if one is, and the outcome. -/
structure TargetRun where
  thrown : Option String
  outcome : Outcome
  world : World

/-- From the snapshot on. -/
def writeTarget (release : String) (script : TargetScript) (t : Target) (previous : Snapshot)
    (w : World) : TargetRun :=
  let tried := deployTarget release script t w
  match tried.1 with
  | .ok _ => ⟨none, .deployed t.image, tried.2⟩
  | .error message =>
      let timedOut := includes message.toList "timed out".toList
      let undone := restore tried.2 t.uuid previous script.restoreImageFate script.restoreEnvFate
      match undone.1 with
      | .error reason =>
          ⟨some (message ++ ", then restore failed: " ++ reason), .unrestored reason, undone.2⟩
      | .ok _ => ⟨some message, .restored previous timedOut release, undone.2⟩

def takeSnapshot (script : TargetScript) (t : Target) (w : World) : Except String Snapshot :=
  match script.snapshotError, w.stored.find? t.uuid with
  | some error, _ => .error error.message
  | none, none => .error "coolify GET answered 404"
  | none, some a => .ok (snapshotOf a script.sight (releaseKeys t.app))

def runTarget (release : String) (script : TargetScript) (t : Target) (w : World) : TargetRun :=
  if script.budgetSpent then
    ⟨some ("deploy time budget spent before " ++ t.name.text), .pending, w⟩
  else
    let holding := (t.app.tasks.filter AppTask.holdsDeploy).map fun task => task.name
    let running :=
      if holding.isEmpty then .ok [] else idleTasks script.running script.runningLater
    match running with
    | .error message => ⟨some message, .pending, w⟩
    | .ok running =>
        if !running.isEmpty then
          ⟨some (t.name.text ++ " skipped while its task " ++ ", ".intercalate running ++ " runs"),
            .skipped, w⟩
        else
          match takeSnapshot script t w with
          | .error message => ⟨some message, .pending, w⟩
          | .ok previous => writeTarget release script t previous w

structure TargetsRun where
  thrown : Option String
  outcomes : List (AppName × Outcome)
  world : World

def runTargets (release : String) (script : AppName → TargetScript) :
    List Target → World → TargetsRun
  | [], w => ⟨none, [], w⟩
  | t :: targets, w =>
      let run := runTarget release (script t.name) t w
      match run.thrown with
      | some message =>
          ⟨some message, (t.name, run.outcome) :: targets.map fun t => (t.name, .pending), run.world⟩
      | none =>
          let rest := runTargets release script targets run.world
          { rest with outcomes := (t.name, run.outcome) :: rest.outcomes }

/-! ## The run -/

structure DeployOptions where
  environment : CoolifyEnvironment
  owner : String
  release : String
  digests : AppName → Option String

/-- The project, the two calls before the targets, and how everything comes out for
each. -/
structure DeployScript where
  projectUuid : String
  environmentId : Except CallError String
  list : Option CallError
  target : AppName → TargetScript

instance : Summary Application := ⟨Application.uuid, Application.name⟩

def targetsFrom (options : DeployOptions) (remote : List Application) :
    List AppName → Except String (List Target)
  | [] => .ok []
  | name :: names =>
      match options.digests name with
      | none => targetsFrom options remote names
      | some image =>
          (findApp remote name.text options.environment.text).bind fun found =>
            match (servicesFor options.environment options.owner).find? fun app => app.name = name,
              found with
            | some app, some target =>
                (targetsFrom options remote names).map fun targets =>
                  ⟨name, image, app, target.uuid⟩ :: targets
            | _, _ => .error (name.text ++ " is missing from coolify in " ++
                options.environment.text ++ ": run infra/coolify/apply.ts first")

/-- Everything in front of the outcomes. -/
def targetsOf (options : DeployOptions) (script : DeployScript) (s : Applications) :
    Except String (List Target) :=
  if !RELEASE options.release then
    .error ("release " ++ options.release ++ " is not a full commit sha")
  else
    match script.environmentId, script.list with
    | .error error, _ => .error error.message
    | .ok id, list =>
        if id = "" then
          .error ("coolify answered no environment " ++ options.environment.text ++
            " in project " ++ script.projectUuid)
        else
          match list with
          | some error => .error error.message
          | none => targetsFrom options (applicationsIn s id) APP_ORDER

structure DeployRun where
  rejected : Option String
  report : Option (List (AppName × Outcome))
  world : World

def runDeploy (options : DeployOptions) (script : DeployScript) (s : Applications) : DeployRun :=
  match targetsOf options script s with
  | .error message => ⟨some message, none, ⟨s, []⟩⟩
  | .ok targets =>
      let run := runTargets options.release script.target targets ⟨s, []⟩
      ⟨run.thrown, some run.outcomes, run.world⟩

end CleanStack.Coolify
