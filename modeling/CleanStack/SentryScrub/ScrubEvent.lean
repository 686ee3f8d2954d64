import CleanStack.Kit.JsValue
import CleanStack.SentryScrub.ScrubText

/-!
# Cleaning an event

What is sent to Sentry passes through one of three functions: an event, a
breadcrumb or a log line. Each cleans the texts it knows by name, and every
string it finds in the records that hold anything, down to a depth. The records
hold plain objects and arrays; `undefined` is `none`, or the value of that name.
-/

namespace CleanStack.SentryScrub

open CleanStack.Kit

abbrev JsRecord := List (String × JsValue)

def DENIED_HEADERS : List String :=
  ["cookie", "Cookie", "authorization", "Authorization", "x-csrf-token"]

def URL_KEYS : List String := ["url", "from", "to"]

def DROPPED_BREADCRUMB_CATEGORIES : List String := ["console"]

def MAX_DEPTH : Nat := 10

structure ScrubbableBreadcrumb where
  category : Option String
  message : Option String
  data : Option JsRecord

structure ScrubbableLog where
  message : String
  attributes : Option JsRecord

structure ScrubbableException where
  value : Option String

structure ScrubbableExceptions where
  values : Option (List ScrubbableException)

structure ScrubbableRequest where
  cookies : JsValue
  data : JsValue
  query_string : JsValue
  headers : Option (List (String × Option String))

structure ScrubbableUser where
  email : Option String
  username : Option String
  ip_address : JsValue

structure ScrubbableEvent where
  message : Option String
  exception : Option ScrubbableExceptions
  request : Option ScrubbableRequest
  user : Option ScrubbableUser
  contexts : Option JsRecord
  extra : Option JsRecord
  breadcrumbs : Option (List ScrubbableBreadcrumb)

/-! ## Records -/

def cleanUrl (url : String) : String :=
  String.ofList (url.toList.takeWhile fun c => !isQueryStart c)

mutual

def cleanDeep (depth : Nat) : JsValue → JsValue
  | .str s => .str (scrubText s)
  | .arr items => if MAX_DEPTH ≤ depth then .arr items else .arr (cleanItems (depth + 1) items)
  | .obj fields =>
      if MAX_DEPTH ≤ depth then .obj fields else .obj (cleanFields (depth + 1) fields)
  | .undefined => .undefined
  | .null => .null
  | .bool b => .bool b
  | .num n => .num n
  | .infinity negative => .infinity negative

def cleanItems (depth : Nat) : List JsValue → List JsValue
  | [] => []
  | v :: vs => cleanDeep depth v :: cleanItems depth vs

def cleanFields (depth : Nat) : JsRecord → JsRecord
  | [] => []
  | (k, v) :: fs => (k, cleanDeep depth v) :: cleanFields depth fs

end

def mapValues (record : JsRecord) (map : String → JsValue → JsValue) : JsRecord :=
  record.map fun f => (f.1, map f.1 f.2)

def cleanRecord (record : JsRecord) : JsRecord := mapValues record fun _ v => cleanDeep 0 v

def cleanBreadcrumbEntry (key : String) (value : JsValue) : JsValue :=
  match value with
  | .str s => if URL_KEYS.contains key then .str (scrubText (cleanUrl s)) else cleanDeep 0 (.str s)
  | v => cleanDeep 0 v

/-! ## The three functions -/

/-- `if (text) text = scrubText(text)`. -/
def scrubIfAny (text : Option String) : Option String :=
  text.map fun t => if t = "" then t else scrubText t

/-- `headers[name] = undefined`. -/
def unsetHeader (headers : List (String × Option String)) (name : String) :
    List (String × Option String) :=
  if headers.any (·.1 = name) then headers.map fun h => if h.1 = name then (h.1, none) else h
  else headers ++ [(name, none)]

def scrubRequest (r : ScrubbableRequest) : ScrubbableRequest :=
  { cookies := .undefined, data := .undefined, query_string := .undefined,
    headers := r.headers.map fun h => DENIED_HEADERS.foldl unsetHeader h }

def scrubUser (_ : ScrubbableUser) : ScrubbableUser := ⟨none, none, .undefined⟩

def scrubBreadcrumb (b : ScrubbableBreadcrumb) : Option ScrubbableBreadcrumb :=
  if b.category.any fun c => c ≠ "" && DROPPED_BREADCRUMB_CATEGORIES.contains c then none
  else
    some { b with
      message := scrubIfAny b.message
      data := b.data.map fun record => mapValues record cleanBreadcrumbEntry }

def scrubEvent (event : ScrubbableEvent) : ScrubbableEvent :=
  { message := scrubIfAny event.message
    exception := event.exception.map fun exceptions =>
      ⟨exceptions.values.map fun values => values.map fun x => ⟨scrubIfAny x.value⟩⟩
    request := event.request.map scrubRequest
    user := event.user.map scrubUser
    contexts := event.contexts.map cleanRecord
    extra := event.extra.map cleanRecord
    breadcrumbs := event.breadcrumbs.map fun breadcrumbs =>
      breadcrumbs.filterMap scrubBreadcrumb }

def scrubLog (log : ScrubbableLog) : ScrubbableLog :=
  { message := scrubText log.message, attributes := log.attributes.map cleanRecord }

end CleanStack.SentryScrub
