import CleanStack.Coolify.Services
import CleanStack.Lib.Table

/-!
# What Coolify stores

Applications with their environment and their scheduled tasks. A write stores what it
is sent and touches nothing else, and an answer gives back what is stored, except that
the value of a variable may be left out where the token may not read it.
-/

namespace CleanStack.Coolify

open CleanStack.Lib

structure EnvEntry where
  key : String
  value : String
  isPreview : Bool
  deriving DecidableEq

structure RemoteTask extends ScheduledTask where
  uuid : String
  deriving DecidableEq

instance : Keyed RemoteTask String := ⟨RemoteTask.uuid⟩

abbrev TaskTable := Table RemoteTask

structure Application where
  uuid : String
  name : String
  environmentId : String
  imageName : String
  imageTag : String
  port : String
  healthCheckEnabled : Bool
  healthCheck : String
  stopGraceSeconds : Rat
  envs : List EnvEntry
  tasks : TaskTable

instance : Keyed Application String := ⟨Application.uuid⟩

abbrev Applications := Table Application

/-- The identifiers Coolify gives to what is created. -/
structure Identifiers where
  application : Applications → String
  application_fresh : ∀ s, application s ∉ s.rows.map Application.uuid
  task : TaskTable → String
  task_fresh : ∀ t, task t ∉ t.rows.map RemoteTask.uuid

/-! ## Writes -/

/-- The entry of a key that is not a preview's. -/
def EnvEntry.holds (key : String) (entry : EnvEntry) : Bool :=
  entry.key = key && !entry.isPreview

def putEnv (envs : List EnvEntry) (key value : String) : List EnvEntry :=
  if envs.any (EnvEntry.holds key) then
    envs.map fun entry => if entry.holds key then { entry with value } else entry
  else envs ++ [⟨key, value, false⟩]

/-- `PATCH …/envs/bulk` -/
def putEnvs (envs : List EnvEntry) (values : List (String × String)) : List EnvEntry :=
  values.foldl (fun envs entry => putEnv envs entry.1 entry.2) envs

/-- `PATCH …/scheduled-tasks/:uuid` -/
def patchTask (tasks : TaskTable) (uuid : String) (task : ScheduledTask) : TaskTable :=
  tasks.update (fun r => r.uuid = uuid) (fun r => { r with toScheduledTask := task }) fun _ => rfl

/-- `POST …/scheduled-tasks` -/
def postTask (ids : Identifiers) (tasks : TaskTable) (task : ScheduledTask) : TaskTable :=
  (tasks.insert ⟨task, ids.task tasks⟩).getD tasks

/-- A write to one application. -/
def Applications.write (s : Applications) (uuid : String) (f : Application → Application)
    (hf : ∀ a, (f a).uuid = a.uuid) : Applications :=
  s.update (fun a => a.uuid = uuid) f hf

/-! ## Answers -/

/-- Which values the token may read, by the application and the key. -/
abbrev Sight := String → String → Bool

/-- The variables of an application, in the order they are answered, previews left
out; a value that is not answered is `none`. -/
def answeredEnv (sight : Sight) (a : Application) : List (String × Option String) :=
  (a.envs.filter fun entry => !entry.isPreview).map fun entry =>
    (entry.key, if sight a.uuid entry.key then some entry.value else none)

def applicationsIn (s : Applications) (environmentId : String) : List Application :=
  s.rows.filter fun a => a.environmentId = environmentId

end CleanStack.Coolify
