import CleanStack.Kit.JsText
import CleanStack.Kit.Utf16
import CleanStack.Lib.Split

/-!
# The notification stream

Frames of server-sent events arrive in chunks that end anywhere. What follows the
last separator is kept and put in front of the next chunk.
-/

namespace CleanStack.WebKit

open CleanStack.Kit CleanStack.Lib

def cr : CodeUnit := 13

def lf : CodeUnit := 10

/-- `/\r?\n/` -/
def LINE_SEPARATOR (text : JsString) : Nat :=
  if text.head? = some lf then 1 else if text.take 2 = [cr, lf] then 2 else 0

/-- `/\r?\n\r?\n/` -/
def FRAME_SEPARATOR (text : JsString) : Nat :=
  let first := LINE_SEPARATOR text
  if first = 0 then 0
  else
    let second := LINE_SEPARATOR (text.drop first)
    if second = 0 then 0 else first + second

/-- No surrogate is a space. -/
def trimEnd (line : JsString) : JsString :=
  (line.reverse.dropWhile fun u => isJsSpace (Char.ofNat u.toNat)).reverse

def isNotification (frame : JsString) : Bool :=
  (split LINE_SEPARATOR frame).any fun line => trimEnd line == unitsOf "event: notification"

/-- How often `onNotification` is called, and the residue. -/
def handleStreamChunk (chunk : JsString) : Nat × JsString :=
  let frames := split FRAME_SEPARATOR chunk
  (frames.dropLast.countP isNotification, frames.getLast?.getD [])

/-- The decoded values the reader gives, read one after the other. -/
def consume : JsString → List JsString → Nat × JsString
  | buffer, [] => (0, buffer)
  | buffer, value :: values =>
      let handled := handleStreamChunk (buffer ++ value)
      let rest := consume handled.2 values
      (handled.1 + rest.1, rest.2)

end CleanStack.WebKit
