import CleanStack.Kit.JsText
import CleanStack.Lib.Replace

/-!
# Cleaning a text

`scrubText` cuts a text at a failed query's parameters, then drops the queries of
its tokens, then masks e-mail addresses. The last two are global replacements by
a regular expression, each given here as what it matches at a place, greedily,
and what the replacement writes.

A token is a run without white space. What stands around an `@` in an address is
a run as well, of narrower characters; a place inside a run is never looked at
twice, as both patterns begin where a run does.
-/

namespace CleanStack.SentryScrub

open CleanStack.Kit CleanStack.Lib

def QUERY_PARAMS_MARKER : List Char := '\n' :: "params:".toList

/-- `text.split(marker)[0]`. -/
def cutAt (marker : List Char) : List Char → List Char
  | [] => []
  | c :: text => if marker.isPrefixOf (c :: text) then [] else c :: cutAt marker text

/-! ## Queries -/

/-- `\S`. -/
def isTokenChar (c : Char) : Bool := !isJsSpace c

def isQueryStart (c : Char) : Bool := c = '?' || c = '#'

def beforeQueryChar (c : Char) : Bool := isTokenChar c && !isQueryStart c

def QUERY_HINT (query : List Char) : Bool := query.any fun c => c = '=' || c = '/'

def looksLikeQuery (beforeQuery query : List Char) : Bool :=
  beforeQuery.contains '/' || QUERY_HINT query

def dropQuery (token beforeQuery query : List Char) : List Char :=
  if looksLikeQuery beforeQuery query then beforeQuery else token

/-- `(?<!\S)([^\s?#]*)([?#]\S*)`. -/
def QUERY_IN_TOKEN (prev : Option Char) (text : List Char) : Option (Nat × List Char) :=
  if prev.any isTokenChar then none
  else
    let beforeQuery := text.takeWhile beforeQueryChar
    match text.dropWhile beforeQueryChar with
    | [] => none
    | q :: rest =>
        if isQueryStart q then
          let behind := rest.takeWhile isTokenChar
          some (beforeQuery.length + behind.length,
            dropQuery (beforeQuery ++ q :: behind) beforeQuery (q :: behind))
        else none

def dropQueries (text : List Char) : List Char := replaceAll QUERY_IN_TOKEN text

/-! ## Addresses -/

/-- Neither white space nor one of the characters that end an address. -/
def isMailChar (c : Char) : Bool :=
  !isJsSpace c && !"@<>()\",;:".toList.contains c && c.toNat ≠ 39

/-- `[a-z]`, in either case. -/
def isLetter (c : Char) : Bool := ('a' ≤ c && c ≤ 'z') || ('A' ≤ c && c ≤ 'Z')

/-- What is left behind the last dot with two letters or more, and behind these. -/
def afterLabel : List Char → Option (List Char)
  | [] => none
  | c :: cs =>
      match afterLabel cs with
      | some tail => some tail
      | none =>
          if c = '.' && 2 ≤ (cs.takeWhile isLetter).length then some (cs.dropWhile isLetter)
          else none

/-- The same behind at least one character: a run that begins with a domain. -/
def afterDomain : List Char → Option (List Char)
  | [] => none
  | _ :: cs => afterLabel cs

def EMAIL_MASK : List Char := "[email]".toList

/-- An address, from the beginning of the run in front of its `@`. -/
def EMAIL (prev : Option Char) (text : List Char) : Option (Nat × List Char) :=
  if prev.any isMailChar then none
  else
    match text.takeWhile isMailChar, text.dropWhile isMailChar with
    | _ :: cs, '@' :: rest =>
        let run := rest.takeWhile isMailChar
        (afterDomain run).map fun tail =>
          (cs.length + 1 + (run.length - tail.length), EMAIL_MASK)
    | _, _ => none

def maskEmails (text : List Char) : List Char := replaceAll EMAIL text

/-! ## Texts -/

def scrubText (text : String) : String :=
  String.ofList (maskEmails (dropQueries (cutAt QUERY_PARAMS_MARKER text.toList)))

example : scrubText "fetch failed for https://example.com/invite?token=tok&via=mail#top" =
    "fetch failed for https://example.com/invite" := by
  decide +kernel

example : scrubText "Email already used: a.b+promo@example.co" = "Email already used: [email]" := by
  decide +kernel

end CleanStack.SentryScrub
