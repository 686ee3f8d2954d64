import CleanStack.Kit.JsText
import CleanStack.Webhooks.SsrfGuard

/-!
# The address a request is counted under

A request comes from a socket. When the socket's peer is one of the trusted
proxies, the `X-Forwarded-For` header is walked from the right, and the first
hop that is not a trusted proxy is the client.

A hop is looked at after its port, its brackets and its zone are taken off.
Two things come from outside: `env.TRUSTED_PROXIES`, and `Number` on the text
behind the slash of a range, given here as the integer it is, if it is one.
-/

namespace CleanStack.Http

open CleanStack.Kit CleanStack.Webhooks

/-! ## Hops -/

def isDigits (text : List Char) : Bool := !text.isEmpty && text.all Char.isDigit

/-- `^(\d{1,3}(?:\.\d{1,3}){3}):\d+$`, and what it captures. -/
def ipv4Port? (hop : List Char) : Option (List Char) :=
  match splitOnChar ':' hop with
  | [addr, port] =>
      let parts := splitOnChar '.' addr
      if parts.length = 4 && parts.all isShortDecimal && isDigits port then some addr else none
  | _ => none

/-- `^\[([^\]]+)\]:\d+$`, and what it captures. -/
def bracketPort? : List Char → Option (List Char)
  | '[' :: rest =>
      let inner := rest.takeWhile (· ≠ ']')
      match rest.dropWhile (· ≠ ']') with
      | ']' :: ':' :: port => if !inner.isEmpty && isDigits port then some inner else none
      | _ => none
  | _ => none

/-- The text up to the first `%`. -/
def withoutZoneId (text : List Char) : List Char := text.takeWhile (· ≠ '%')

def normalizeHop (hop : String) : String :=
  match ipv4Port? hop.toList with
  | some addr => String.ofList addr
  | none =>
      match bracketPort? hop.toList with
      | some inner => String.ofList (withoutZoneId inner)
      | none => String.ofList (withoutZoneId hop.toList)

/-! ## The trusted proxies -/

def addPrivate (bl : BlockList) : BlockList :=
  let v4 := PRIVATE_V4.foldl (fun bl s => bl.addSubnet s.1 s.2 .ipv4) bl
  PRIVATE_V6.foldl (fun bl s => bl.addSubnet s.1 s.2 .ipv6) v4

def addEntry (integer : String → Option Int) (bl : BlockList) (raw : String) : BlockList :=
  let entry := trim raw
  if entry = "private" then addPrivate bl
  else if entry.toList.contains '/' then
    let addr := String.ofList (entry.toList.takeWhile (· ≠ '/'))
    match integer (String.ofList ((entry.toList.dropWhile (· ≠ '/')).drop 1)) with
    | some (.ofNat bits) =>
        if isIPv4 addr && bits ≤ 32 then bl.addSubnet addr bits .ipv4
        else if isIPv6 addr && bits ≤ 128 then bl.addSubnet addr bits .ipv6
        else bl
    | _ => bl
  else if isIPv4 entry then bl.addAddress entry .ipv4
  else if isIPv6 entry then bl.addAddress entry .ipv6
  else bl

def buildList (integer : String → Option Int) (entries : List String) : BlockList :=
  entries.foldl (addEntry integer) BlockList.empty

/-- The list built last, with the entries it was built from. The code compares
the entries by identity; a list of the same entries is built anew there, and is
the same list. -/
structure ListCache (integer : String → Option Int) where
  cachedRef : Option (List String)
  cachedList : Option BlockList
  built : cachedRef.map (buildList integer) = cachedList

def ListCache.empty (integer : String → Option Int) : ListCache integer := ⟨none, none, rfl⟩

def trustedList {integer : String → Option Int} (cache : ListCache integer)
    (trustedProxies : Option (List String)) : Option BlockList × ListCache integer :=
  match trustedProxies with
  | none => (none, cache)
  | some [] => (none, cache)
  | some entries =>
      if some entries = cache.cachedRef then (cache.cachedList, cache)
      else
        (some (buildList integer entries), ⟨some entries, some (buildList integer entries), rfl⟩)

def isTrusted (ip : String) (list : BlockList) : Bool :=
  if isIPv4 ip then list.check ip .ipv4
  else if isIPv6 ip then list.check ip .ipv6
  else false

/-! ## Requests -/

/-- What is read of a request. -/
structure Peer where
  remoteAddress : Option String
  forwardedFor : Option String

def isFromTrustedProxy {integer : String → Option Int} (cache : ListCache integer)
    (trustedProxies : Option (List String)) (c : Peer) : Bool × ListCache integer :=
  let (list, cache) := trustedList cache trustedProxies
  match list with
  | none => (false, cache)
  | some list => (isTrusted (normalizeHop (c.remoteAddress.getD "")) list, cache)

def orUnknown (addr : String) : String := if addr = "" then "unknown" else addr

/-- `xff.split(",")`. -/
def hopsOf (xff : String) : List String := (splitOnChar ',' xff.toList).map String.ofList

/-- The walk from the right, over the hops in reverse. -/
def rightmostUntrusted (list : BlockList) : List String → Option String
  | [] => none
  | hop :: hops =>
      if hop ≠ "" && !isTrusted hop list then some hop else rightmostUntrusted list hops

def clientIp (list : Option BlockList) (c : Peer) : String :=
  let socketAddr := normalizeHop (c.remoteAddress.getD "")
  match list with
  | none => orUnknown socketAddr
  | some list =>
      if !isTrusted socketAddr list then orUnknown socketAddr
      else
        match c.forwardedFor with
        | none => orUnknown socketAddr
        | some xff =>
            if xff = "" then orUnknown socketAddr
            else
              let hops := (hopsOf xff).map fun h => normalizeHop (trim h)
              (rightmostUntrusted list hops.reverse).getD (orUnknown socketAddr)

def resolveClientIp {integer : String → Option Int} (cache : ListCache integer)
    (trustedProxies : Option (List String)) (c : Peer) : String × ListCache integer :=
  let (list, cache) := trustedList cache trustedProxies
  (clientIp list c, cache)

/-- The cache does not show: the list is that of the entries there are. -/
theorem trustedList_fst {integer : String → Option Int} (cache : ListCache integer)
    (trustedProxies : Option (List String)) :
    (trustedList cache trustedProxies).1 =
      if trustedProxies.getD [] = [] then none
      else some (buildList integer (trustedProxies.getD [])) := by
  cases trustedProxies with
  | none => rfl
  | some entries =>
      cases entries with
      | nil => rfl
      | cons entry entries =>
          rw [trustedList, Option.getD_some, if_neg (List.cons_ne_nil _ _)]
          · split
            · next hsame => rw [← cache.built, ← hsame, Option.map_some]
            · rfl
          · intro h
            cases h

end CleanStack.Http
