import CleanStack.Kit.SearchParams

/-!
# Where a sign-in leads

A page of the application is given by its path. A path is read as a URL against an origin
that does not exist: one that stays there is handed on as it was read, unless its path
begins with two slashes or hides a separator. Anything else has to stand on the one
other origin that is allowed.
-/

namespace CleanStack.WebKit

open CleanStack.Lib CleanStack.Kit

def PROBE_ORIGIN : List Char := "https://same-origin.invalid".toList

def parseAgainstProbe (r : UrlReader) (value : List Char) : Option ParsedUrl :=
  match parseUrl r none PROBE_ORIGIN with
  | some (.special base) => parseUrl r (some base) value
  | _ => none

/-- `/%2f|%5c/i.test(pathname)`. -/
def encodesPathSeparator (pathname : List Char) : Bool :=
  (pathname.map Char.toLower).tails.any fun rest =>
    ['%', '2', 'f'].isPrefixOf rest || ['%', '5', 'c'].isPrefixOf rest

def hasUnsafePath (parsed : ParsedUrl) : Bool :=
  ['/', '/'].isPrefixOf parsed.pathname || encodesPathSeparator parsed.pathname

def startsWithSlash (value : List Char) : Bool := ['/'].isPrefixOf value

def toAllowedExternal (r : UrlReader) (value externalOrigin : List Char) :
    Option (List Char) := do
  let allowed ← parseAgainstProbe r externalOrigin
  if allowed.origin = PROBE_ORIGIN then none
  else if value ≠ allowed.origin ∧ ¬(allowed.origin ++ ['/']) <+: value then none
  else
    let parsed ← parseAgainstProbe r value
    if parsed.origin ≠ allowed.origin then none
    else if parsed.authority.credentials || hasUnsafePath parsed then none
    else some (parsed.origin ++ (parsed.pathname ++ parsed.search ++ parsed.hash))

/-- An empty origin allows nothing, as none does. -/
def toSafeRedirect (r : UrlReader) (value externalOrigin : Option (List Char)) :
    Option (List Char) := do
  let value ← value
  let external := externalOrigin.filter (· ≠ [])
  if value ≠ [] ∧ external.isSome ∧ ¬startsWithSlash value then
    toAllowedExternal r value (← external)
  else if ¬startsWithSlash value then none
  else
    let parsed ← parseAgainstProbe r value
    if parsed.origin ≠ PROBE_ORIGIN ∨ hasUnsafePath parsed then none
    else some (parsed.pathname ++ parsed.search ++ parsed.hash)

def isExternalRedirect (target : List Char) : Bool := !startsWithSlash target

def twoFactorPath (r : UrlReader) (search : List Char) (externalOrigin : Option (List Char)) :
    List Char :=
  let redirect :=
    toSafeRedirect r (getParam "redirect".toList (searchParams search)) externalOrigin
  match redirect.filter (· ≠ []) with
  | some redirect => "/two-factor?redirect=".toList ++ encodeURIComponent redirect
  | none => "/two-factor".toList

end CleanStack.WebKit
