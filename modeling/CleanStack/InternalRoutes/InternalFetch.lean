import CleanStack.InternalRoutes.InternalSignature
import CleanStack.Kit.Stringify
import Mathlib.Algebra.Order.Ring.Unbundled.Rat
import Mathlib.Algebra.Order.Group.Unbundled.Abs

/-!
# Internal requests, sent and let in

`signedInternalFetch` signs what it is about to send; `requireInternalSignature`
rebuilds the message from what has arrived: the `Host` header for the URL's
host, the `Content-Type` header for the type that was chosen, the text of the
body for the text that was written.
-/

namespace CleanStack.InternalRoutes

open CleanStack.Kit

/-- What `Date.now()` returns. -/
structure Instant where
  ms : Int
  wf : ms.natAbs ≤ 8640000000000000

/-- `Math.floor(Date.now() / 1000)`. -/
def Instant.seconds (now : Instant) : Int := now.ms / 1000

/-- Bodies are compared in one way, whatever else is imported. -/
instance bodyDecidableEq : DecidableEq ByteArray := ByteArray.instDecidableEq

/-- A request on its way: its URL's path, and the headers that are read. -/
structure Request where
  method : String
  pathname : String
  host : Option String
  contentType : Option String
  signature : Option String
  body : ByteArray
  deriving DecidableEq

structure HTTPException where
  status : Nat
  message : String

/-- A text that counts as true. -/
def truthy (text : Option String) : Option String := text.filter (· ≠ "")

variable (rt : Runtime)

def receivedInput (t : JsNumber) (c : Request) : CanonicalInput where
  timestamp := t
  method := c.method
  path := c.pathname
  host := c.host.getD ""
  contentType := c.contentType
  rawBody := rt.text c.body

def requireInternalSignature (INTERNAL_SIGNING_KEY : Option String) (now : Instant) (c : Request) :
    Except HTTPException Unit :=
  match truthy INTERNAL_SIGNING_KEY with
  | none => .error ⟨503, "Internal signing not configured"⟩
  | some key =>
      match truthy c.signature with
      | none => .error ⟨401, "Missing signature"⟩
      | some headerValue =>
          match parseSignatureHeader rt headerValue with
          | none => .error ⟨401, "Malformed signature"⟩
          | some parsed =>
              if (MAX_AGE_SECONDS : Rat) < |(now.seconds : Rat) - rt.value parsed.t| then
                .error ⟨401, "Signature expired"⟩
              else
                let message := canonicalize rt (receivedInput rt parsed.t c)
                if (sign rt message key).any (verify parsed.v1) then .ok ()
                else .error ⟨401, "Invalid signature"⟩

/-! ## Sending -/

inductive Method
  | POST | GET | PUT | PATCH | DELETE

def Method.text : Method → String
  | .POST => "POST"
  | .GET => "GET"
  | .PUT => "PUT"
  | .PATCH => "PATCH"
  | .DELETE => "DELETE"

/-- A body that is left out is `undefined`. -/
structure SignedFetchInput where
  baseUrl : String
  method : Method
  path : String
  body : JsValue
  signingKey : String

/-- `fetch`, up to the sending: a `GET` with a body throws. -/
def fetch (url : Url) (method : Method) (signature : String) (contentType : Option String)
    (body : Option String) : Option Request :=
  match method, body with
  | .GET, some _ => none
  | _, _ =>
      some {
        method := method.text
        pathname := url.pathname
        host := some url.host
        contentType := contentType
        signature := some signature
        body := (body.getD "").toUTF8 }

def rawBodyOf (body : JsValue) : String := (stringify body).getD ""

def sentInput (url : Url) (input : SignedFetchInput) (timestamp : JsNumber) : CanonicalInput where
  timestamp := timestamp
  method := input.method.text
  path := url.pathname
  host := url.host
  contentType := (truthy (some (rawBodyOf input.body))).map fun _ => "application/json"
  rawBody := rawBodyOf input.body

/-- The request that is sent, unless something throws before. -/
def signedInternalFetch (input : SignedFetchInput) (now : Instant) : Option Request :=
  (rt.newURL input.path input.baseUrl).bind fun url =>
    let sent := sentInput url input (.ofInt now.seconds)
    (sign rt (canonicalize rt sent) input.signingKey).bind fun signature =>
      fetch url input.method (buildSignatureHeader sent.timestamp signature) sent.contentType
        (truthy (some sent.rawBody))

end CleanStack.InternalRoutes
