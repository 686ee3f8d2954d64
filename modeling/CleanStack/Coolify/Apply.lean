import CleanStack.Coolify.Server

/-!
# Bringing an environment to its declared state

`plan` compares what should be with what Coolify answers; `runApply` writes. An
application that differs is saved whole, one that does not has its literals written
again, since their values may not be readable.
-/

namespace CleanStack.Coolify

open CleanStack.Lib

structure RemoteApp where
  uuid : String
  name : String
  image : String
  port : String
  healthCheck : String
  stopGraceSeconds : Rat
  /-- The entries a `Map` is built from, in order. -/
  env : List (String × Option String)
  tasks : List RemoteTask

instance : Summary RemoteApp := ⟨RemoteApp.uuid, RemoteApp.name⟩

/-- `env.get(key)`: the last entry of a key is the one a `Map` keeps. -/
def RemoteApp.get (app : RemoteApp) (key : String) : Option (Option String) :=
  app.env.reverse.lookup key

def RemoteApp.task (app : RemoteApp) (name : String) : Option RemoteTask :=
  app.tasks.find? fun remote => remote.name = name

def remoteApp (sight : Sight) (a : Application) : RemoteApp :=
  { uuid := a.uuid
    name := a.name
    image := a.imageName
    port := a.port
    healthCheck := a.healthCheck
    stopGraceSeconds := a.stopGraceSeconds
    env := answeredEnv sight a
    tasks := a.tasks.rows }

def listApplications (sight : Sight) (s : Applications) (environmentId : String) :
    List RemoteApp :=
  (applicationsIn s environmentId).map (remoteApp sight)

/-! ## The plan -/

inductive ChangeKind
  | create
  | update
  deriving DecidableEq

structure Change where
  kind : ChangeKind
  name : String
  fields : List String

structure AppKeys where
  name : String
  keys : List String

structure Plan where
  changes : List Change
  missing : List AppKeys
  unknown : List AppKeys

def sameTask (want : ScheduledTask) (have_ : Option RemoteTask) : Bool :=
  have_.any fun task => task.command = want.command && task.schedule = want.schedule &&
    task.timeoutSeconds = want.timeoutSeconds && task.enabled = want.enabled

/-- A field that is not equal, or has nothing to be equal to. -/
def differs {α : Type} [DecidableEq α] (field : RemoteApp → α) (want : α)
    (have_ : Option RemoteApp) : Bool :=
  have_.map field ≠ some want

def differingScalars (want : AppState) (have_ : Option RemoteApp) : List String :=
  (if differs RemoteApp.image want.image have_ then ["image"] else []) ++
    (if differs RemoteApp.port want.port have_ then ["port"] else []) ++
    (if differs RemoteApp.healthCheck want.healthCheck have_ then ["healthCheck"] else []) ++
    (if differs RemoteApp.stopGraceSeconds want.stopGraceSeconds have_ then ["stopGraceSeconds"]
      else [])

/-- The key is not there, or has another value that can be read. -/
def differsEnv (have_ : Option RemoteApp) (entry : String × String) : Bool :=
  match have_.bind fun app => app.get entry.1 with
  | none => true
  | some current => current.any fun value => value ≠ entry.2

def differsTask (have_ : Option RemoteApp) (task : ScheduledTask) : Bool :=
  !sameTask task (have_.bind fun app => app.task task.name)

def differingFields (want : AppState) (have_ : Option RemoteApp) : List String :=
  differingScalars want have_ ++
    ((want.env.filter (differsEnv have_)).map fun entry => "env." ++ entry.1) ++
    ((want.tasks.filter (differsTask have_)).map fun task => "task." ++ task.name)

def planApp (have_ : Option RemoteApp) (want : AppState) : Plan :=
  let fields := differingFields want have_
  let keys := want.secrets.filter fun key =>
    (have_.bind fun app => app.get key).all fun value => value = some ""
  let hidden := (want.env.map Prod.fst).filter fun key =>
    (have_.bind fun app => app.get key) = some none
  { changes := match have_ with
      | none => [⟨.create, want.name, fields⟩]
      | some _ => if 0 < fields.length then [⟨.update, want.name, fields⟩] else []
    missing := if 0 < keys.length then [⟨want.name, keys⟩] else []
    unknown := if 0 < hidden.length then [⟨want.name, hidden⟩] else [] }

def plan (remote : List RemoteApp) (environment : CoolifyEnvironment) :
    List CoolifyApp → Except String Plan
  | [] => .ok ⟨[], [], []⟩
  | app :: desired =>
      (findApp remote app.name.text environment.text).bind fun have_ =>
        (plan remote environment desired).map fun rest =>
          let own := planApp have_ (stateOf app)
          ⟨own.changes ++ rest.changes, own.missing ++ rest.missing, own.unknown ++ rest.unknown⟩

/-! ## The writes -/

variable (ids : Identifiers)

def setEnv (s : Applications) (uuid : String) (values : List (String × String)) : Applications :=
  if values.isEmpty then s
  else s.write uuid (fun a => { a with envs := putEnvs a.envs values }) fun _ => rfl

/-- The fields of `applicationBody`. -/
def saved (state : AppState) (a : Application) : Application :=
  { a with
    name := state.name
    imageName := state.image
    port := state.port
    healthCheckEnabled := true
    healthCheck := state.healthCheck
    stopGraceSeconds := state.stopGraceSeconds }

theorem uuid_saved (state : AppState) (a : Application) : (saved state a).uuid = a.uuid := rfl

/-- What Coolify makes of `applicationBody` when it creates one. -/
def created (uuid environmentId : String) (state : AppState) : Application :=
  saved state
    { uuid, environmentId, name := "", imageName := "", imageTag := "", port := ""
      healthCheckEnabled := false, healthCheck := "", stopGraceSeconds := 0, envs := []
      tasks := Table.empty }

/-- The identifier of the saved application, and what is stored then. -/
def saveApplication (s : Applications) (environmentId : String) (state : AppState) :
    Option RemoteApp → String × Applications
  | some remote => (remote.uuid, s.write remote.uuid (saved state) (uuid_saved state))
  | none =>
      let uuid := ids.application s
      (uuid, (s.insert (created uuid environmentId state)).getD s)

def saveTask (remoteTasks : List RemoteTask) (tasks : TaskTable) (task : ScheduledTask) :
    TaskTable :=
  match remoteTasks.find? fun remote => remote.name = task.name with
  | some existing => patchTask tasks existing.uuid task
  | none => postTask ids tasks task

def saveTasks (remoteTasks : List RemoteTask) (tasks : TaskTable) (wanted : List ScheduledTask) :
    TaskTable :=
  wanted.foldl (saveTask ids remoteTasks) tasks

def upsertApplication (s : Applications) (environmentId : String) (app : CoolifyApp)
    (target : Option RemoteApp) : Applications :=
  let state := stateOf app
  let stored := saveApplication ids s environmentId state target
  let remoteTasks := (target.map RemoteApp.tasks).getD []
  (setEnv stored.2 stored.1 state.env).write stored.1
    (fun a => { a with tasks := saveTasks ids remoteTasks a.tasks state.tasks }) fun _ => rfl

/-- One round of the loop below the plan. -/
def applyApp (result : Plan) (environmentId : String) (existing : Option RemoteApp)
    (s : Applications) (app : CoolifyApp) : Applications :=
  match existing with
  | some remote =>
      if result.changes.any fun change => change.name = app.name.text then
        upsertApplication ids s environmentId app (some remote)
      else setEnv s remote.uuid (stateOf app).env
  | none => upsertApplication ids s environmentId app none

def applyAll (result : Plan) (remote : List RemoteApp) (environment : CoolifyEnvironment)
    (environmentId : String) : List CoolifyApp → Applications → Except String Applications
  | [], s => .ok s
  | app :: desired, s =>
      (findApp remote app.name.text environment.text).bind fun existing =>
        applyAll result remote environment environmentId desired
          (applyApp ids result environmentId existing s app)

/-- What a run answers, and what is stored after it; no call fails. -/
def runApply (sight : Sight) (environment : CoolifyEnvironment) (owner environmentId : String)
    (apply : Bool) (s : Applications) : Except String (Plan × Applications) :=
  let desired := servicesFor environment owner
  let remote := listApplications sight s environmentId
  (plan remote environment desired).bind fun result =>
    if apply then
      (applyAll ids result remote environment environmentId desired s).map fun stored =>
        (result, stored)
    else .ok (result, s)

end CleanStack.Coolify
