import CleanStack.Env.Bounds
import CleanStack.Outbox.LeaseBudget
import CleanStack.Webhooks.SsrfGuard
import CleanStack.Webhooks.Store

/-!
# Delivering a webhook

`processDelivery` with the requests it sends. The worker calls `fetch` with its
defaults: it resolves the host again when it connects, and follows redirects,
resolving each host it is sent to. What the network does is a `Network`: the
address the n-th connection goes to, and the answer it gets. A network may
change its mind between the guard's lookup and a connection, and between two
connections.

Parsing URLs, cryptography, dates and the printing of JSON are functions of the
platform.
-/

namespace CleanStack.Webhooks

open CleanStack.Drizzle CleanStack.Kit

structure Platform (κ : Type) where
  parseUrl : String → Option Url
  /-- `new URL(location, base)` -/
  resolveUrl : Url → String → Option Url
  deriveOrgSubKey : κ → String → κ
  decryptSecret : String → κ → Except String String
  hmacHex : String → String → String
  stringify : JsValue → String
  isoString : Time → String
  decodeText : List Nat → String

/-! ## Fetching -/

/-- The chunks of a response, and the error that ends them early, if one does. -/
structure Body where
  chunks : List (List Nat)
  broken : Option String

structure Response where
  status : Nat
  statusText : String
  headers : List (String × String)
  body : Option Body

def Response.ok (r : Response) : Bool := 200 ≤ r.status && r.status ≤ 299

def Response.location (r : Response) : Option String :=
  (r.headers.find? fun h => h.1 = "location").map (·.2)

inductive Answer
  | lost (error : String)
  | response (r : Response)

structure Network where
  connect : Nat → String → Except String String
  answer : Nat → Url → Answer

structure SentRequest where
  url : Url
  method : String
  address : String

def MAX_REDIRECTS : Nat := 20

inductive Redirect
  | stay
  | broken
  | follow (next : Url)

section Fetch

variable {κ : Type} (p : Platform κ) (net : Network)

def redirectOf (url : Url) (r : Response) : Redirect :=
  if [301, 302, 303, 307, 308].contains r.status then
    match r.location with
    | none => .stay
    | some location =>
        match p.resolveUrl url location with
        | none => .broken
        | some next =>
            if next.protocol = "http:" || next.protocol = "https:" then .follow next
            else .broken
  else .stay

def redirectMethod (status : Nat) (method : String) : String :=
  if (status = 303 && method ≠ "GET" && method ≠ "HEAD") ||
      ((status = 301 || status = 302) && method = "POST") then "GET"
  else method

/-- The connections from the `hop`-th on, `left` redirects being allowed. -/
def fetchFrom (left hop : Nat) (url : Url) (method : String) :
    List SentRequest × Except String Response :=
  match net.connect hop url.hostname with
  | .error error => ([], .error error)
  | .ok address =>
      let sent : SentRequest := ⟨url, method, address⟩
      match net.answer hop url with
      | .lost error => ([sent], .error error)
      | .response r =>
          match redirectOf p url r with
          | .stay => ([sent], .ok r)
          | .broken => ([sent], .error "TypeError: invalid redirect")
          | .follow next =>
              match left with
              | 0 => ([sent], .error "TypeError: redirect count exceeded")
              | left + 1 =>
                  let rest := fetchFrom left (hop + 1) next (redirectMethod r.status method)
                  (sent :: rest.1, rest.2)

def fetch (rawUrl method : String) : List SentRequest × Except String Response :=
  match p.parseUrl rawUrl with
  | none => ([], .error "TypeError: Invalid URL")
  | some url => fetchFrom p net MAX_REDIRECTS 0 url method

/-- The chunks read until `cap` bytes are there. -/
def readChunks (cap total : Nat) (broken : Option String) :
    List (List Nat) → Except String (List (List Nat))
  | [] =>
      match broken with
      | some error => if total < cap then .error error else .ok []
      | none => .ok []
  | chunk :: chunks =>
      if total < cap then (readChunks cap (total + chunk.length) broken chunks).map (chunk :: ·)
      else .ok []

def readCappedBody (cap : Nat) (r : Response) : Except String (Option String) :=
  match r.body with
  | none => .ok none
  | some body =>
      (readChunks cap 0 body.broken body.chunks).map fun chunks =>
        some (p.decodeText (chunks.flatten.take cap))

/-! ## One delivery -/

structure EndpointRow where
  id : String
  organizationId : String
  url : String
  secretCipher : String
  previousSecretCipher : Option String
  previousSecretExpiresAt : Option Time

structure AttemptLog where
  requestHeaders : Option (List (String × String))
  requestBody : Option String
  responseStatus : Option Nat
  responseHeaders : Option (List (String × String))
  responseBody : Option String
  durationMs : Option Nat
  error : Option String

structure Attempt where
  requestSent : Bool
  log : AttemptLog

inductive DeliveryVerdict
  | success
  | failure (error : String) (terminal : Bool)

structure Outcome where
  verdict : DeliveryVerdict
  responseStatus : Option Nat
  organizationId : Option String
  attempt : Option Attempt

def failed (error : String) (terminal : Bool) (organizationId : Option String)
    (attempt : Option Attempt) : Outcome :=
  ⟨.failure error terminal, none, organizationId, attempt⟩

/-- What a delivery finds: the answer of the endpoint lookup, what the guard's
lookup comes to, and the network; `now` is the clock, `durationMs` how long the
request takes. -/
structure World where
  endpoint : Except String (Option EndpointRow)
  lookup : Lookup
  net : Network
  now : Time
  durationMs : Nat

structure DeliverySettings where
  httpsOnly : Bool
  lookupTimeoutMs : Nat
  responseCaptureBytes : Nat

def NOT_ROUTABLE : String := "destination not publicly routable"

def notRoutableLog : AttemptLog where
  requestHeaders := none
  requestBody := none
  responseStatus := none
  responseHeaders := none
  responseBody := none
  durationMs := some 0
  error := some NOT_ROUTABLE

/-- The current secret, and the previous one as long as it has not expired. -/
def decryptSecrets (endpoint : EndpointRow) (masterKey : κ) (now : Time) :
    Except String (List String) := do
  let subKey := p.deriveOrgSubKey masterKey endpoint.organizationId
  let current ← p.decryptSecret endpoint.secretCipher subKey
  match endpoint.previousSecretCipher, endpoint.previousSecretExpiresAt with
  | some cipher, some expiresAt =>
      if now < expiresAt then
        let previous ← p.decryptSecret cipher subKey
        return [current, previous]
      else return [current]
  | _, _ => return [current]

def signWebhookPayload (rawBody : String) (secrets : List String) (ts : Nat) : String :=
  "t=" ++ toString ts ++ "," ++ joinWith "," (secrets.map fun secret =>
    "v1=" ++ p.hmacHex secret (toString ts ++ "." ++ rawBody))

def rawBodyOf (delivery : DeliveryRow) : String :=
  p.stringify (.obj
    [("id", .str delivery.outboxEventId), ("type", .str delivery.eventType),
      ("data", delivery.payload), ("time", .str (p.isoString delivery.createdAt))])

def requestHeadersOf (delivery : DeliveryRow) (signature : String) : List (String × String) :=
  [("content-type", "application/json"), ("x-webhook-signature", signature),
    ("x-webhook-event-id", delivery.outboxEventId),
    ("x-webhook-event-type", delivery.eventType),
    ("x-webhook-idempotency", delivery.idempotencyKey)]

/-- What the answer leaves behind: status, headers, body and error. -/
def readResponse (cap : Nat) (result : Except String Response) :
    Option Nat × List (String × String) × Option String × Option String :=
  match result with
  | .error error => (none, [], none, some error)
  | .ok r =>
      match readCappedBody p cap r with
      | .error error => (some r.status, r.headers, none, some error)
      | .ok body =>
          (some r.status, r.headers, body,
            if r.ok then none
            else some ("HTTP " ++ toString r.status ++ ": " ++ r.statusText))

def sendDelivery (settings : DeliverySettings) (w : World) (delivery : DeliveryRow)
    (endpoint : EndpointRow) (secrets : List String) : Outcome × List SentRequest :=
  let rawBody := rawBodyOf p delivery
  let signature := signWebhookPayload p rawBody secrets (w.now / second)
  let requestHeaders := requestHeadersOf delivery signature
  let (sent, result) := fetch p w.net endpoint.url "POST"
  let (responseStatus, responseHeaders, responseBody, errorMessage) :=
    readResponse p settings.responseCaptureBytes result
  let attempt : Attempt :=
    ⟨true,
      { requestHeaders := some requestHeaders
        requestBody := some rawBody
        responseStatus := responseStatus
        responseHeaders := if responseHeaders.length > 0 then some responseHeaders else none
        responseBody := responseBody
        durationMs := some w.durationMs
        error := errorMessage }⟩
  let verdict : DeliveryVerdict :=
    match errorMessage with
    | some error => .failure error false
    | none => .success
  (⟨verdict, responseStatus, some endpoint.organizationId, some attempt⟩, sent)

/-- The outcome of a delivery, and the requests it has sent. -/
def processDelivery (settings : DeliverySettings) (masterKey : Option κ) (w : World)
    (delivery : DeliveryRow) : Outcome × List SentRequest :=
  match w.endpoint with
  | .error _ => (failed "endpoint lookup db error" false none none, [])
  | .ok none => (failed "endpoint not found or disabled" true none none, [])
  | .ok (some endpoint) =>
      let organizationId := some endpoint.organizationId
      match assertPublicUrl p.parseUrl endpoint.url w.lookup settings.httpsOnly
          settings.lookupTimeoutMs with
      | .error error =>
          if error.code = LOOKUP_TIMEOUT then (failed error.message false organizationId none, [])
          else
            (failed NOT_ROUTABLE true organizationId (some ⟨false, notRoutableLog⟩), [])
      | .ok _ =>
          match masterKey with
          | none => (failed "WEBHOOK_MASTER_KEY missing" false organizationId none, [])
          | some key =>
              match decryptSecrets p endpoint key w.now with
              | .error _ => (failed "secret decryption failed" false organizationId none, [])
              | .ok secrets => sendDelivery p settings w delivery endpoint secrets

end Fetch

/-! ## A batch in time -/

open CleanStack.Env CleanStack.Outbox in
def DELIVERY_BUDGET : LeaseBudget where
  unitSeconds := WEBHOOK_DNS_TIMEOUT_SECONDS + WEBHOOK_FETCH_TIMEOUT_SECONDS
  marginSeconds := WEBHOOK_SETTLE_MARGIN_SECONDS

open CleanStack.Outbox in
/-- `drainBatch` on the deliveries of a claim that is answered some seconds after
the countdown began. -/
def drainBatch (leaseSeconds : Nat) (clock : Rat) (batch : List DeliveryRow) (answered : Rat)
    (runs : List UnitRun) : Drained DeliveryRow :=
  let lease := leaseCountdown leaseSeconds DELIVERY_BUDGET clock
  drainUnits true lease clock true answered (batch.zip runs)

/-! ## One platform, one delivery -/

def hooksUrl : Url := ⟨"https://hooks.example.com/", "https:", "", "", "hooks.example.com"⟩

def metadataUrl : Url :=
  ⟨"http://169.254.169.254/latest/meta-data/", "http:", "", "", "169.254.169.254"⟩

def plainPlatform : Platform Unit where
  parseUrl text := [hooksUrl, metadataUrl].find? fun url => url.href = text
  resolveUrl _ location := [hooksUrl, metadataUrl].find? fun url => url.href = location
  deriveOrgSubKey _ _ := ()
  decryptSecret cipher _ := .ok cipher
  hmacHex _ _ := ""
  stringify _ := ""
  isoString _ := ""
  decodeText _ := ""

def paidDelivery : DeliveryRow where
  id := "d1"
  endpointId := "w1"
  outboxEventId := "e1"
  eventType := "invoice.paid"
  payload := .obj []
  status := .pending
  attempts := 1
  nextAttemptAt := some 0
  lastError := none
  lastResponseStatus := none
  idempotencyKey := "k1"
  createdAt := 0

end CleanStack.Webhooks
