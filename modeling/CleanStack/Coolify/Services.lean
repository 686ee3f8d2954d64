import Mathlib.Data.Rat.Init

/-!
# The applications of an environment

What each application should be: its image, its scheduled tasks and where every key of
its environment comes from. Secrets are set in Coolify by hand, literals by `apply` and
release keys by `deploy`.
-/

namespace CleanStack.Coolify

inductive CoolifyEnvironment
  | staging
  | production
  deriving DecidableEq

def CoolifyEnvironment.text : CoolifyEnvironment → String
  | .staging => "staging"
  | .production => "production"

inductive AppName
  | api
  | app
  | admin
  deriving DecidableEq

def AppName.text : AppName → String
  | .api => "api"
  | .app => "app"
  | .admin => "admin"

def APP_ORDER : List AppName := [.api, .app, .admin]

inductive EnvSource
  | secret
  | literal (value : String)
  | release
  deriving DecidableEq

structure ScheduledTask where
  name : String
  command : String
  schedule : String
  timeoutSeconds : Rat
  enabled : Bool
  deriving DecidableEq

structure AppTask extends ScheduledTask where
  holdsDeploy : Bool

structure CoolifyApp where
  name : AppName
  image : String
  port : Nat
  healthCheck : String
  stopGraceSeconds : Rat
  env : List (String × EnvSource)
  tasks : List AppTask

def API_PORT : Nat := 3000
def SPA_PORT : Nat := 80

def cron (job : String) : String := "bun apps/api/src/cron/" ++ job ++ ".ts"

def API_SECRETS : List String := [
  "DATABASE_URL", "BETTER_AUTH_URL", "BETTER_AUTH_SECRET", "APP_URL", "ADMIN_URL", "CORS_ORIGIN",
  "RESEND_API_KEY", "RESEND_FROM", "S3_ENDPOINT", "S3_BUCKET", "S3_ACCESS_KEY", "S3_SECRET_KEY",
  "S3_PUBLIC_URL", "INTERNAL_SIGNING_KEY", "WEBHOOK_MASTER_KEY", "API_TOKEN_PEPPER",
  "SCIM_CREDENTIAL_HASH_SECRET", "STRIPE_SECRET_KEY", "STRIPE_WEBHOOK_SECRET", "SENTRY_DSN"]

def secrets (keys : List String) : List (String × EnvSource) := keys.map fun key => (key, .secret)

def probe (port : Nat) (path : String) : String :=
  "wget -qO- http://127.0.0.1:" ++ toString port ++ path

def imageOf (owner : String) (name : AppName) : String :=
  "ghcr.io/" ++ owner ++ "/clean-stack-" ++ name.text

def apiEnv (environment : CoolifyEnvironment) : List (String × EnvSource) :=
  secrets API_SECRETS ++ [
    ("NODE_ENV", .literal "production"),
    ("PORT", .literal (toString API_PORT)),
    ("API_URL", .literal ("http://localhost:" ++ toString API_PORT)),
    ("INTERNAL_AUTH_LAYERS", .literal "signature,private-network"),
    ("TRUSTED_PROXIES", .literal "private"),
    ("RATE_LIMIT_STORE", .literal "postgres"),
    ("S3_REGION", .literal "auto"),
    ("S3_FORCE_PATH_STYLE", .literal "false"),
    ("SENTRY_ENVIRONMENT", .literal environment.text),
    ("SHUTDOWN_DEADLINE_MS", .literal "36000"),
    ("GIT_SHA", .release)]

def servicesFor (environment : CoolifyEnvironment) (owner : String) : List CoolifyApp := [
  { name := .api
    image := imageOf owner .api
    port := API_PORT
    healthCheck := probe API_PORT "/livez"
    stopGraceSeconds := 45
    env := apiEnv environment
    tasks := [
      ⟨⟨"rgpd-sweep", cron "rgpd-sweep", "47 2 * * *", 1800, true⟩, true⟩,
      ⟨⟨"sweep", cron "sweep", "17 3 * * *", 1800, true⟩, true⟩,
      ⟨⟨"flush-notification-emails", cron "flush-notification-emails", "* * * * *", 180, true⟩,
        false⟩] },
  { name := .app
    image := imageOf owner .app
    port := SPA_PORT
    healthCheck := probe SPA_PORT "/health"
    stopGraceSeconds := 10
    env := secrets ["VITE_API_URL"]
    tasks := [] },
  { name := .admin
    image := imageOf owner .admin
    port := SPA_PORT
    healthCheck := probe SPA_PORT "/health"
    stopGraceSeconds := 10
    env := secrets ["VITE_API_URL", "CSP_CONNECT_EXTRA"]
    tasks := [] }]

structure AppState where
  name : String
  image : String
  port : String
  healthCheck : String
  stopGraceSeconds : Rat
  env : List (String × String)
  secrets : List String
  tasks : List ScheduledTask

def EnvSource.literal? : EnvSource → Option String
  | .literal value => some value
  | _ => none

def stateOf (app : CoolifyApp) : AppState :=
  { name := app.name.text
    image := app.image
    port := toString app.port
    healthCheck := app.healthCheck
    stopGraceSeconds := app.stopGraceSeconds
    env := app.env.filterMap fun entry => entry.2.literal?.map fun value => (entry.1, value)
    secrets := (app.env.filter fun entry => entry.2 = .secret).map Prod.fst
    tasks := app.tasks.map AppTask.toScheduledTask }

/-- What a list of applications shows of each. -/
class Summary (T : Type) where
  uuid : T → String
  name : T → String

/-- Several applications of one name are refused. -/
def findApp {T : Type} [Summary T] (apps : List T) (name : String) (environment : String) :
    Except String (Option T) :=
  let matching := apps.filter fun app => Summary.name app = name
  if 1 < matching.length then
    .error ("coolify has several applications named " ++ name ++ " in " ++ environment ++ " (" ++
      ", ".intercalate (matching.map Summary.uuid) ++ "): keep one")
  else .ok matching.head?

end CleanStack.Coolify
