import CleanStack.Kit.Net

/-!
# The guard on a webhook's destination

`assertPublicUrl` looks at one URL at one moment: the scheme, the credentials,
and the addresses its host resolves to just then. `new URL` is a function the
guard is given, and what the resolver answers is an argument.

Unwrapping an IPv4-mapped address leaves a dotted text, which is no IPv6 address
and is not unwrapped again.
-/

namespace CleanStack.Webhooks

open CleanStack.Kit

def PRIVATE_V4 : List (String × Nat) :=
  [("10.0.0.0", 8), ("172.16.0.0", 12), ("192.168.0.0", 16), ("127.0.0.0", 8),
    ("169.254.0.0", 16), ("100.64.0.0", 10)]

def PRIVATE_V6 : List (String × Nat) := [("::1", 128), ("fc00::", 7), ("fe80::", 10)]

def privateBlockList : BlockList :=
  let v4 := PRIVATE_V4.foldl (fun bl s => bl.addSubnet s.1 s.2 .ipv4) BlockList.empty
  let v6 := PRIVATE_V6.foldl (fun bl s => bl.addSubnet s.1 s.2 .ipv6) v4
  v6.addSubnet "0.0.0.0" 8 .ipv4

/-- One to three digits, `\d{1,3}`. -/
def isShortDecimal (part : List Char) : Bool :=
  !part.isEmpty && part.length ≤ 3 && part.all Char.isDigit

/-- One to four hexadecimal digits. -/
def isShortHex (part : List Char) : Bool :=
  !part.isEmpty && part.length ≤ 4 && part.all isHexDigit

def dotted (hi lo : Nat) : String :=
  toString (hi / 256 % 256) ++ "." ++ toString (hi % 256) ++ "." ++
    toString (lo / 256 % 256) ++ "." ++ toString (lo % 256)

def unwrapIpv4Mapped (ip : String) : Option String :=
  if (ip.toList.take 7).map Char.toLower ≠ [':', ':', 'f', 'f', 'f', 'f', ':'] then none
  else
    let tail := ip.toList.drop 7
    let parts := splitOnChar '.' tail
    if parts.length = 4 && parts.all isShortDecimal then some (String.ofList tail)
    else
      match splitOnChar ':' tail with
      | [hi, lo] =>
          if isShortHex hi && isShortHex lo then some (dotted (numberIn 16 hi) (numberIn 16 lo))
          else none
      | _ => none

def isPrivateOrReservedV4 (ip : String) : Bool :=
  if isIPv4 ip then privateBlockList.check ip .ipv4 else true

def isPrivateOrReservedAddress (ip : String) : Bool :=
  if isIPv4 ip then privateBlockList.check ip .ipv4
  else if isIPv6 ip then
    match unwrapIpv4Mapped ip with
    | some mapped => isPrivateOrReservedV4 mapped
    | none => privateBlockList.check ip .ipv6
  else true

/-! ## The guard -/

structure SsrfError where
  code : String
  message : String
  deriving DecidableEq

/-- The parts of a parsed URL that are looked at. -/
structure Url where
  href : String
  protocol : String
  username : String
  password : String
  hostname : String
  deriving DecidableEq

/-- What the guard's lookup comes to. -/
inductive Lookup
  | addresses (addrs : List String)
  | failed
  | timedOut

def forbidden (message : String) : Except SsrfError Url :=
  .error ⟨"WEBHOOK_URL_FORBIDDEN", message⟩

def LOOKUP_TIMEOUT : String := "WEBHOOK_HOST_LOOKUP_TIMEOUT"

def assertPublicUrl (parseUrl : String → Option Url) (rawUrl : String) (lookup : Lookup)
    (httpsOnly : Bool) (lookupTimeoutMs : Nat) : Except SsrfError Url :=
  match parseUrl rawUrl with
  | none => forbidden "invalid url"
  | some url =>
      let schemeOk := url.protocol = "https:" || (url.protocol = "http:" && !httpsOnly)
      if !schemeOk then forbidden "scheme not allowed"
      else if url.username ≠ "" || url.password ≠ "" then
        forbidden "credentials in url not allowed"
      else
        match lookup with
        | .failed => forbidden "host not resolvable"
        | .timedOut =>
            .error ⟨LOOKUP_TIMEOUT,
              "host lookup timed out after " ++ toString lookupTimeoutMs ++ "ms"⟩
        | .addresses addrs =>
            if addrs.length = 0 || addrs.any isPrivateOrReservedAddress then
              forbidden "destination not publicly routable"
            else .ok url

/-- The guard lets a URL through with the addresses it has just seen. -/
theorem assertPublicUrl_eq_ok {parseUrl : String → Option Url} {rawUrl : String}
    {lookup : Lookup} {httpsOnly : Bool} {lookupTimeoutMs : Nat} {url : Url}
    (h : assertPublicUrl parseUrl rawUrl lookup httpsOnly lookupTimeoutMs = .ok url) :
    parseUrl rawUrl = some url ∧ ∃ addrs, lookup = .addresses addrs ∧
      ∀ a ∈ addrs, isPrivateOrReservedAddress a = false := by
  unfold assertPublicUrl at h
  split at h
  · cases h
  · next parsed hparse =>
      dsimp only at h
      split at h
      · cases h
      · split at h
        · cases h
        · split at h
          · cases h
          · cases h
          · next addrs =>
              split at h
              · cases h
              · next hpublic =>
                  cases h
                  simp only [Bool.or_eq_true, List.any_eq_true, not_or, not_exists, not_and,
                    Bool.not_eq_true] at hpublic
                  exact ⟨hparse, addrs, rfl, fun a ha => hpublic.2 a ha⟩

end CleanStack.Webhooks
