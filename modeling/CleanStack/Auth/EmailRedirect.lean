import CleanStack.WebKit.SafeRedirect

/-!
# Where a link in an e-mail leads

The authentication library hands over its own link. The page it would come back to is
taken over into the link that is sent, when the pages would accept it.
-/

namespace CleanStack.Auth

open CleanStack.Lib CleanStack.Kit CleanStack.WebKit

def callbackParam (r : UrlReader) (authUrl : List Char) : Option (List Char) :=
  (parseUrl r none authUrl).bind fun url =>
    getParam "callbackURL".toList (searchParams url.search)

def toSameOriginPath (r : UrlReader) (value : Option (List Char)) : Option (List Char) := do
  let value ← value
  if ¬startsWithSlash value then none
  else
    let parsed ← parseAgainstProbe r value
    if parsed.origin ≠ PROBE_ORIGIN ∨ hasUnsafePath parsed then none
    else some (parsed.pathname ++ parsed.search ++ parsed.hash)

/-- The text of the origin is compared as it was configured. -/
def toAllowedExternal (r : UrlReader) (value externalOrigin : Option (List Char)) :
    Option (List Char) := do
  let value ← value.filter (· ≠ [])
  let externalOrigin ← externalOrigin.filter (· ≠ [])
  if value ≠ externalOrigin ∧ ¬(externalOrigin ++ ['/']) <+: value then none
  else
    let parsed ← parseUrl r none value
    if parsed.origin ≠ externalOrigin then none
    else if parsed.authority.credentials || hasUnsafePath parsed then none
    else some (parsed.origin ++ (parsed.pathname ++ parsed.search ++ parsed.hash))

def redirectTarget (r : UrlReader) (callback externalOrigin : Option (List Char)) :
    Option (List Char) :=
  (toSameOriginPath r callback).or (toAllowedExternal r callback externalOrigin)

def redirectQuery (r : UrlReader) (authUrl : List Char) (externalOrigin : Option (List Char)) :
    List Char :=
  match (redirectTarget r (callbackParam r authUrl) externalOrigin).filter
      fun target => target ≠ [] ∧ target ≠ ['/'] with
  | some target => "&redirect=".toList ++ encodeURIComponent target
  | none => []

/-- The link in the verification e-mail. -/
def verifyUrl (r : UrlReader) (appUrl token authUrl : List Char)
    (adminUrl : Option (List Char)) : List Char :=
  appUrl ++ ("/verify-email?token=".toList ++ encodeURIComponent token ++
    redirectQuery r authUrl adminUrl)

/-- The link in the sign-in e-mail. -/
def magicUrl (r : UrlReader) (appUrl token authUrl : List Char)
    (adminUrl : Option (List Char)) : List Char :=
  appUrl ++ ("/magic-link?token=".toList ++ encodeURIComponent token ++
    redirectQuery r authUrl adminUrl)

end CleanStack.Auth
