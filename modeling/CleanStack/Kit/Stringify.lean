import CleanStack.Kit.JsValue

/-!
# `JSON.stringify`

The fields of an object are written in the order they are listed in; a field
whose value is `undefined` is left out, an item is written as `null`. Only
`undefined` itself has no text.
-/

namespace CleanStack.Kit

mutual

def stringify : JsValue → Option String
  | .undefined => none
  | .null => some "null"
  | .bool b => some (if b then "true" else "false")
  | .num n => some n.text
  | .infinity _ => some "null"
  | .str s => some (quote s)
  | .arr items => some ("[" ++ joinWith "," (stringifyItems items) ++ "]")
  | .obj fields => some ("\x7b" ++ joinWith "," (stringifyFields fields) ++ "\x7d")

def stringifyItems : List JsValue → List String
  | [] => []
  | v :: vs => (stringify v).getD "null" :: stringifyItems vs

def stringifyFields : List (String × JsValue) → List String
  | [] => []
  | (k, v) :: fs =>
      match stringify v with
      | none => stringifyFields fs
      | some text => (quote k ++ ":" ++ text) :: stringifyFields fs

end

example : stringify (.obj [("dryRun", .bool false), ("only", .undefined),
    ("ids", .arr [.str "a\"", .undefined])]) =
      some "\x7b\"dryRun\":false,\"ids\":[\"a\\\"\",null]\x7d" := by
  decide +kernel

/-- A text begins with a character that JSON writes outside strings. -/
def startsJson (text : String) : Bool :=
  text.toList.head?.any fun c => "ntf\"[\x7b".toList.contains c || isNumberChar c

theorem startsJson_stringify {v : JsValue} {text : String} (h : stringify v = some text) :
    startsJson text = true := by
  cases v with
  | undefined => simp [stringify] at h
  | null =>
      simp only [stringify, Option.some.injEq] at h
      subst h
      decide
  | bool b =>
      simp only [stringify, Option.some.injEq] at h
      subst h
      cases b <;> decide
  | num n =>
      simp only [stringify, Option.some.injEq] at h
      subst h
      obtain ⟨text, hne, hall⟩ := n
      rw [startsJson]
      cases hlist : text.toList with
      | nil => exact absurd (String.toList_eq_nil_iff.1 hlist) hne
      | cons c cs =>
          rw [hlist, List.all_cons, Bool.and_eq_true] at hall
          simp [hall.1]
  | infinity negative =>
      simp only [stringify, Option.some.injEq] at h
      subst h
      decide
  | str s =>
      simp only [stringify, Option.some.injEq] at h
      subst h
      simp [startsJson, quote]
  | arr items =>
      simp only [stringify, Option.some.injEq] at h
      subst h
      simp [startsJson]
  | obj fields =>
      simp only [stringify, Option.some.injEq] at h
      subst h
      simp [startsJson]

end CleanStack.Kit
