import CleanStack.Kit.JsText
import CleanStack.Kit.Utf16
import CleanStack.Lib.Crc
import Mathlib.Algebra.Group.Nat.Defs

/-!
# The text of an API token

A token is a prefix, a random body in base 58, and a checksum of both: the
CRC-32 of their UTF-8 bytes, in six digits of the same base.

Random bytes come in buffers, and each buffer's bytes are positions of one
stream. The loop that fills the body ends only when enough of them are below the
rejection ceiling, so it is given the number of buffers it may draw.
-/

namespace CleanStack.ApiToken

open CleanStack.Kit CleanStack.Lib

def BASE58_ALPHABET : JsString :=
  unitsOf "123456789ABCDEFGHJKLMNPQRSTUVWXYZabcdefghijkmnopqrstuvwxyz"

def TOKEN_BODY_LENGTH : Nat := 44

def TOKEN_CHECKSUM_LENGTH : Nat := 6

def TOKEN_START_BODY_CHARS : Nat := 8

def ALPHABET_SIZE : Nat := BASE58_ALPHABET.length

def REJECTION_CEILING : Nat := 256 - 256 % ALPHABET_SIZE

/-- `BASE58_ALPHABET[n % ALPHABET_SIZE]`. -/
def digit (n : Nat) : CodeUnit := BASE58_ALPHABET.getD (n % ALPHABET_SIZE) 0

/-! ## Bodies -/

/-- The bytes of one buffer, up to the one that completes the text. -/
def appendBytes (length : Nat) : List UInt8 → JsString → JsString
  | [], out => out
  | byte :: bytes, out =>
      if REJECTION_CEILING ≤ byte.toNat then appendBytes length bytes out
      else if (out ++ [digit byte.toNat]).length = length then out ++ [digit byte.toNat]
      else appendBytes length bytes (out ++ [digit byte.toNat])

/-- The `k`th buffer of the given size. -/
def buffer (random : Nat → UInt8) (size k : Nat) : List UInt8 :=
  (List.range size).map fun i => random (size * k + i)

def randomLoop (random : Nat → UInt8) (length : Nat) : Nat → Nat → JsString → Option JsString
  | 0, _, out => if out.length < length then none else some out
  | fuel + 1, k, out =>
      if out.length < length then
        randomLoop random length fuel (k + 1)
          (appendBytes length (buffer random (length * 2) k) out)
      else some out

def randomBase58 (random : Nat → UInt8) (length fuel : Nat) : Option JsString :=
  randomLoop random length fuel 0 []

/-! ## Checksums -/

def base58Loop : Nat → Nat → JsString → JsString
  | 0, _, out => out
  | i + 1, n, out => base58Loop i (n / ALPHABET_SIZE) (digit n :: out)

def toBase58Fixed (value length : Nat) : JsString := base58Loop length (value % 2 ^ 32) []

def CRC32_POLYNOMIAL : BitVec 32 := 0xedb88320#32

def crc32 (payload : JsString) : BitVec 32 :=
  crc CRC32_POLYNOMIAL 0xffffffff#32 0xffffffff#32 (utf8 payload)

example : crc32 (unitsOf "123456789") = 0xcbf43926#32 := by decide +kernel

def checksumOf (payload : JsString) : JsString :=
  toBase58Fixed (crc32 payload).toNat TOKEN_CHECKSUM_LENGTH

/-! ## Tokens -/

structure GeneratedToken where
  raw : JsString
  body : JsString
  start : JsString

def generateToken (random : Nat → UInt8) (pre : JsString) (fuel : Nat) : Option GeneratedToken :=
  (randomBase58 random TOKEN_BODY_LENGTH fuel).map fun body =>
    let raw := pre ++ body ++ checksumOf (pre ++ body)
    ⟨raw, body, raw.take (pre.length + TOKEN_START_BODY_CHARS)⟩

structure TokenFormatError where
  code : String
  message : String
  deriving DecidableEq

def malformed (message : String) : Except TokenFormatError JsString :=
  .error ⟨"API_TOKEN_MALFORMED", message⟩

def parseToken (raw pre : JsString) : Except TokenFormatError JsString :=
  if !pre.isPrefixOf raw then malformed "unexpected prefix"
  else if raw.length ≠ pre.length + TOKEN_BODY_LENGTH + TOKEN_CHECKSUM_LENGTH then
    malformed "unexpected length"
  else
    let body := (raw.drop pre.length).take TOKEN_BODY_LENGTH
    let checksum := raw.drop (pre.length + TOKEN_BODY_LENGTH)
    if !(codePoints (body ++ checksum)).all (includes BASE58_ALPHABET) then
      malformed "non-base58 character"
    else if checksum ≠ checksumOf (pre ++ body) then malformed "checksum mismatch"
    else .ok raw

end CleanStack.ApiToken
