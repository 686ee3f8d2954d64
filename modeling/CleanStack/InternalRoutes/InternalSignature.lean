import CleanStack.Kit.JsText
import CleanStack.Kit.JsValue
import CleanStack.Kit.Net
import CleanStack.Kit.Utf16
import Mathlib.Data.Rat.Init

/-!
# Signing an internal request

A request to an internal route carries a timestamp and a signature of its
canonical message. The message is six texts with a line end between two of them.

What the code uses of its runtime is a parameter: the case of letters, numbers
in texts, HMAC-SHA-256, URLs and the text of a body.
-/

namespace CleanStack.InternalRoutes

open CleanStack.Kit CleanStack.Lib

/-- The parts of a parsed URL that are read. -/
structure Url where
  pathname : String
  host : String

structure Runtime where
  toUpperCase : String → String
  toLowerCase : String → String
  /-- `Number` of a text, when it is finite. -/
  toNumber : String → Option JsNumber
  value : JsNumber → Rat
  /-- The key is the first argument. -/
  hmacSha256 : ByteArray → ByteArray → List UInt8
  /-- `new URL(path, baseUrl)`, which may throw. -/
  newURL : String → String → Option Url
  /-- `text()` of a body. -/
  text : ByteArray → String

def MAX_AGE_SECONDS : Nat := 30

/-- The text without the suffix: `replace` on a pattern that ends in `$`. -/
def withoutSuffix (suffix text : List Char) : List Char :=
  if suffix.isSuffixOf text then text.take (text.length - suffix.length) else text

variable (rt : Runtime)

def normalizeHost (host : String) : String :=
  String.ofList (withoutSuffix ":80".toList
    (withoutSuffix ":443".toList (trim (rt.toLowerCase host)).toList))

def normalizeContentType (ct : Option String) : String :=
  match ct with
  | none => ""
  | some ct =>
      if ct = "" then ""
      else rt.toLowerCase (trim (String.ofList ((splitOnChar ';' ct.toList).headD [])))

structure CanonicalInput where
  timestamp : JsNumber
  method : String
  path : String
  host : String
  contentType : Option String
  rawBody : String

/-- The texts before the body. -/
def CanonicalInput.head (input : CanonicalInput) : List (List Char) :=
  [input.timestamp.text.toList, (rt.toUpperCase input.method).toList, input.path.toList,
    (normalizeHost rt input.host).toList, (normalizeContentType rt input.contentType).toList]

def canonicalize (input : CanonicalInput) : String :=
  String.ofList (separated '\n' (input.head rt ++ [input.rawBody.toList]))

/-! ## Signatures -/

def byteHex (byte : UInt8) : List Char := padStart 2 '0' (Nat.toDigits 16 byte.toNat)

def toHex (bytes : List UInt8) : String := String.ofList (bytes.flatMap byteHex)

/-- The platform imports no empty key. -/
def importHmacKey (key : String) : Option ByteArray := if key = "" then none else some key.toUTF8

def sign (message key : String) : Option String :=
  (importHmacKey key).map fun cryptoKey => toHex (rt.hmacSha256 cryptoKey message.toUTF8)

def verify (presented expected : String) : Bool :=
  if jsLength presented ≠ jsLength expected then false
  else ((unitsOf presented).zipWith (· ^^^ ·) (unitsOf expected)).foldl (· ||| ·) 0 = 0

def buildSignatureHeader (timestamp : JsNumber) (signature : String) : String :=
  "t=" ++ timestamp.text ++ ",v1=" ++ signature

structure ParsedSignature where
  t : JsNumber
  v1 : String

/-- A part of the header: what stands before its first `=`, and between that and
the second. -/
def headerEntry (kv : List Char) : String × String :=
  let parts := splitOnChar '=' kv
  (trim (String.ofList (parts.getD 0 [])), trim (String.ofList (parts.getD 1 [])))

/-- `Object.fromEntries`, read at a key: the last entry counts. -/
def fromEntries (entries : List (String × String)) (key : String) : Option String :=
  (entries.reverse.find? (·.1 = key)).map (·.2)

def parseSignatureHeader (header : String) : Option ParsedSignature :=
  let map := fromEntries ((splitOnChar ',' header.toList).map headerEntry)
  match (map "t").bind rt.toNumber, map "v1" with
  | some t, some v1 => if v1 = "" then none else some ⟨t, v1⟩
  | _, _ => none

end CleanStack.InternalRoutes
