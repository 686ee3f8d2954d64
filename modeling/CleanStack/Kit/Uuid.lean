import CleanStack.Kit.JsText
import CleanStack.Kit.JsValue
import CleanStack.Lib.Delimited

/-!
# Identifiers

A version 7 identifier begins with the milliseconds it was made at; the bits that
follow are random for the first of a millisecond and counted up from there.
-/

namespace CleanStack.Kit

open CleanStack.Lib

def RANDOM_BITS : Nat := 74
def RANDOM_MAX : Nat := (1 <<< RANDOM_BITS) - 1
def RAND_B_BITS : Nat := 62
def RAND_B_MASK : Nat := (1 <<< RAND_B_BITS) - 1
def VARIANT_BITS : Nat := 0b10 <<< RAND_B_BITS

/-- What the module keeps between two calls. -/
structure UuidState where
  lastTimestamp : Int
  lastRandom : Nat

def UuidState.loaded : UuidState := ⟨-1, 0⟩

/-- What one call reads: the clock, and ten random bytes if it draws any. -/
structure UuidCall where
  now : Int
  bytes : Vector UInt8 10

def freshRandom (bytes : Vector UInt8 10) : Nat :=
  bytes.toList.foldl (fun random byte => random <<< 8 ||| byte.toNat) 0 &&& RANDOM_MAX

def advanceMonotonicState (s : UuidState) (call : UuidCall) : UuidState :=
  if s.lastTimestamp < call.now then ⟨call.now, freshRandom call.bytes⟩
  else if s.lastRandom < RANDOM_MAX then { s with lastRandom := s.lastRandom + 1 }
  else ⟨s.lastTimestamp + 1, freshRandom call.bytes⟩

/-- `toString(16)` -/
def hexText : Int → List Char
  | .ofNat n => Nat.toDigits 16 n
  | .negSucc n => '-' :: Nat.toDigits 16 (n + 1)

def slice (start stop : Nat) (text : List Char) : List Char := (text.take stop).drop start

def formatUuid (s : UuidState) : String :=
  let timestampHex := padStart 12 '0' (hexText s.lastTimestamp)
  let randAHex := padStart 3 '0' (hexText (s.lastRandom >>> RAND_B_BITS))
  let randBHex := hexText (VARIANT_BITS ||| (s.lastRandom &&& RAND_B_MASK) : Nat)
  String.ofList (separated '-' [slice 0 8 timestampHex, slice 8 12 timestampHex, '7' :: randAHex,
    slice 0 4 randBHex, slice 4 16 randBHex])

def uuidv7 (s : UuidState) (call : UuidCall) : String × UuidState :=
  let s := advanceMonotonicState s call
  (formatUuid s, s)

/-- The identifiers of some calls, in order, and what the module keeps after them. -/
def uuids : UuidState → List UuidCall → List String × UuidState
  | s, [] => ([], s)
  | s, call :: calls =>
      let made := uuidv7 s call
      let rest := uuids made.2 calls
      (made.1 :: rest.1, rest.2)

/-- `a < b` -/
def stringLt (a b : String) : Bool := !stringLe b a

example : (uuidv7 .loaded ⟨1800000000000, Vector.replicate 10 255⟩).1 =
    "01a3185c-5000-7fff-bfff-ffffffffffff" := by decide +kernel

end CleanStack.Kit
