import Mathlib.Data.List.Sort

/-!
# Values as the handlers pass them around

A value is what `JSON.parse` or a handler can hold: the JSON kinds plus
`undefined`. A finite number is known by the decimal text the language prints
it with, which is different for different numbers; the shape of that text
travels with it. A numeral beyond the largest double is read as an infinity,
which JSON prints as `null`.

`canonicalize` prints a value with the keys of every object sorted, so two
values that differ only in key order print alike. Keys are compared by UTF-16
code units, which is what `Array.prototype.sort` does on strings.
-/

namespace CleanStack.Kit

def isNumberChar (c : Char) : Bool :=
  c.isDigit || c = '-' || c = '+' || c = '.' || c = 'e'

structure JsNumber where
  text : String
  wf : text ≠ "" ∧ text.toList.all isNumberChar = true

theorem isNumberChar_toString (n : Nat) :
    (toString n).toList.all isNumberChar = true := by
  rw [List.all_eq_true]
  intro c hc
  have hmem : c ∈ Nat.toDigits 10 n := by simpa [Nat.repr] using hc
  have hdigit := Nat.isDigit_of_mem_toDigits (by decide) (by decide) hmem
  simp [isNumberChar, hdigit]

def JsNumber.ofInt : Int → JsNumber
  | .ofNat n => ⟨toString n, by simp, isNumberChar_toString n⟩
  | .negSucc n => ⟨"-" ++ toString (n + 1), by simp, by
      rw [String.toList_append, List.all_append, isNumberChar_toString]
      rfl⟩

inductive JsValue
  | undefined
  | null
  | bool (b : Bool)
  | num (n : JsNumber)
  | infinity (negative : Bool)
  | str (s : String)
  | arr (items : List JsValue)
  | obj (fields : List (String × JsValue))

/-- The UTF-16 code units of a string. -/
def utf16Units (s : String) : List Nat :=
  s.toList.flatMap fun c =>
    if c.toNat < 0x10000 then [c.toNat]
    else [0xD800 + (c.toNat - 0x10000) / 0x400, 0xDC00 + (c.toNat - 0x10000) % 0x400]

def unitsLe : List Nat → List Nat → Bool
  | [], _ => true
  | _ :: _, [] => false
  | a :: as, b :: bs => a < b || (a = b && unitsLe as bs)

/-- The order of `Array.prototype.sort` on strings. -/
def stringLe (a b : String) : Bool := unitsLe (utf16Units a) (utf16Units b)

def hexDigit (n : Nat) : Char :=
  if n < 10 then Char.ofNat (48 + n) else Char.ofNat (87 + n)

/-- One character of a JSON string literal. -/
def escapeChar (c : Char) : List Char :=
  if c = '"' then ['\\', '"']
  else if c = '\\' then ['\\', '\\']
  else if c.toNat = 8 then ['\\', 'b']
  else if c.toNat = 9 then ['\\', 't']
  else if c.toNat = 10 then ['\\', 'n']
  else if c.toNat = 12 then ['\\', 'f']
  else if c.toNat = 13 then ['\\', 'r']
  else if c.toNat < 32 then
    ['\\', 'u', '0', '0', hexDigit (c.toNat / 16), hexDigit (c.toNat % 16)]
  else [c]

/-- `JSON.stringify` of a string. -/
def quote (s : String) : String :=
  String.ofList ('"' :: s.toList.flatMap escapeChar ++ ['"'])

def joinWith (sep : String) : List String → String
  | [] => ""
  | [s] => s
  | s :: t :: rest => s ++ sep ++ joinWith sep (t :: rest)

/-- The fields of an object, each printed, in key order. -/
def sortFields (fields : List (String × String)) : List (String × String) :=
  fields.insertionSort fun a b => stringLe a.1 b.1 = true

mutual

def canonicalize : JsValue → String
  | .undefined => "null"
  | .null => "null"
  | .bool b => if b then "true" else "false"
  | .num n => n.text
  | .infinity _ => "null"
  | .str s => quote s
  | .arr items => "[" ++ joinWith "," (canonicalizeItems items) ++ "]"
  | .obj fields =>
      "\x7b" ++ joinWith "," ((sortFields (canonicalizeFields fields)).map fun f =>
        quote f.1 ++ ":" ++ f.2) ++ "\x7d"

def canonicalizeItems : List JsValue → List String
  | [] => []
  | v :: vs => canonicalize v :: canonicalizeItems vs

def canonicalizeFields : List (String × JsValue) → List (String × String)
  | [] => []
  | (k, v) :: fs => (k, canonicalize v) :: canonicalizeFields fs

end

end CleanStack.Kit
