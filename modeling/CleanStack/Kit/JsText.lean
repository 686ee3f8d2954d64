/-!
# Text methods of the language

White space is what `trim` takes off and what `\s` matches: the Unicode space
separators, the line ends and the byte order mark. `includes` looks for a text
at every place of another.
-/

namespace CleanStack.Kit

def isJsSpace (c : Char) : Bool :=
  (9 ≤ c.toNat && c.toNat ≤ 13) || (0x2000 ≤ c.toNat && c.toNat ≤ 0x200a) ||
    [0x20, 0xa0, 0x1680, 0x2028, 0x2029, 0x202f, 0x205f, 0x3000, 0xfeff].contains c.toNat

def trimStart (text : List Char) : List Char := text.dropWhile isJsSpace

def trimEnd (text : List Char) : List Char := (text.reverse.dropWhile isJsSpace).reverse

def trim (text : String) : String := String.ofList (trimEnd (trimStart text.toList))

def padStart (length : Nat) (fill : Char) (text : List Char) : List Char :=
  List.replicate (length - text.length) fill ++ text

theorem isJsSpace_printable {c : Char} (h : 33 ≤ c.toNat ∧ c.toNat ≤ 126) :
    isJsSpace c = false := by
  simp [isJsSpace]
  omega

theorem trim_of_no_space {text : String} (h : ∀ c ∈ text.toList, isJsSpace c = false) :
    trim text = text := by
  have hkeep : ∀ cs : List Char, (∀ c ∈ cs, isJsSpace c = false) → cs.dropWhile isJsSpace = cs := by
    intro cs hcs
    cases cs with
    | nil => rfl
    | cons c cs => rw [List.dropWhile_cons, hcs c List.mem_cons_self, if_neg Bool.false_ne_true]
  rw [trim, trimStart, trimEnd, hkeep _ h,
    hkeep _ fun c hc => h c (List.mem_reverse.1 hc), List.reverse_reverse, String.ofList_toList]

/-- `s.includes(part)`. -/
def includes {α : Type} [BEq α] : List α → List α → Bool
  | [], part => part.isEmpty
  | a :: s, part => part.isPrefixOf (a :: s) || includes s part

theorem includes_iff {α : Type} [BEq α] [LawfulBEq α] {s part : List α} :
    includes s part = true ↔ part <:+: s := by
  induction s with
  | nil => rw [includes, List.isEmpty_iff, List.infix_nil]
  | cons a s ih =>
      rw [includes, Bool.or_eq_true, List.isPrefixOf_iff_prefix, ih, List.infix_cons_iff]

end CleanStack.Kit
