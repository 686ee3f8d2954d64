import CleanStack.Lib.Delimited
import Mathlib.Algebra.Group.Nat.Defs
import Mathlib.Data.List.Basic

/-!
# IP addresses as text

What `node:net` makes of a text: `isIPv4` takes four decimal octets without
leading zeros, `isIPv6` eight groups of hexadecimal digits, of which `::` may
stand for some and a dotted IPv4 address for the last two, with an optional
zone. Each returns the number the address is.

A `BlockList` is a list of subnets. An IPv6 address that maps an IPv4 address is
also looked up among the IPv4 subnets.
-/

namespace CleanStack.Kit

open CleanStack.Lib

/-- `split` on one character. -/
def splitOnChar (sep : Char) : List Char → List (List Char)
  | [] => [[]]
  | c :: cs =>
      if c = sep then [] :: splitOnChar sep cs
      else
        match splitOnChar sep cs with
        | [] => [[c]]
        | part :: parts => (c :: part) :: parts

theorem splitOnChar_of_not_mem {sep : Char} {part : List Char} (h : sep ∉ part) :
    splitOnChar sep part = [part] := by
  induction part with
  | nil => rfl
  | cons c cs ih =>
      obtain ⟨hc, hcs⟩ := not_or.1 (mt List.mem_cons.2 h)
      rw [splitOnChar, if_neg (Ne.symm hc), ih hcs]

theorem splitOnChar_ne_nil (sep : Char) (text : List Char) : splitOnChar sep text ≠ [] := by
  cases text with
  | nil => simp [splitOnChar]
  | cons c cs =>
      rw [splitOnChar]
      split
      · simp
      · split <;> simp

theorem splitOnChar_append_sep (sep : Char) (text rest : List Char) :
    splitOnChar sep (text ++ sep :: rest) = splitOnChar sep text ++ splitOnChar sep rest := by
  induction text with
  | nil => simp [splitOnChar]
  | cons c cs ih =>
      obtain ⟨part, parts, hsplit⟩ := List.exists_cons_of_ne_nil (splitOnChar_ne_nil sep cs)
      rw [List.cons_append, splitOnChar, splitOnChar, ih, hsplit]
      split <;> rfl

theorem splitOnChar_append {sep : Char} {part rest : List Char} (h : sep ∉ part) :
    splitOnChar sep (part ++ sep :: rest) = part :: splitOnChar sep rest := by
  rw [splitOnChar_append_sep, splitOnChar_of_not_mem h, List.singleton_append]

/-- The parts are the text between the separators, and have none in them. -/
theorem separated_splitOnChar (sep : Char) (text : List Char) :
    splitOnChar sep text ≠ [] ∧ separated sep (splitOnChar sep text) = text ∧
      ∀ part ∈ splitOnChar sep text, sep ∉ part := by
  induction text with
  | nil => simp [splitOnChar, separated]
  | cons c cs ih =>
      obtain ⟨hne, hjoin, hparts⟩ := ih
      by_cases hc : c = sep
      · rw [splitOnChar, if_pos hc, hc]
        obtain ⟨part, parts, hsplit⟩ := List.exists_cons_of_ne_nil hne
        refine ⟨List.cons_ne_nil _ _, ?_, ?_⟩
        · rw [hsplit] at hjoin ⊢
          rw [separated, hjoin]
          rfl
        · simpa using hparts
      · rw [splitOnChar, if_neg hc]
        obtain ⟨part, parts, hsplit⟩ := List.exists_cons_of_ne_nil hne
        rw [hsplit] at hjoin hparts ⊢
        refine ⟨List.cons_ne_nil _ _, ?_, fun p hp => ?_⟩
        · dsimp only
          rw [separated_cons] at hjoin ⊢
          rw [List.cons_append, hjoin]
        · rcases List.mem_cons.1 hp with rfl | hp
          · intro hmem
            rcases List.mem_cons.1 hmem with heq | hmem
            · exact hc heq.symm
            · exact hparts part List.mem_cons_self hmem
          · exact hparts p (List.mem_cons_of_mem _ hp)

def isHexDigit (c : Char) : Bool :=
  c.isDigit || (97 ≤ c.toNat && c.toNat ≤ 102) || (65 ≤ c.toNat && c.toNat ≤ 70)

def hexValue (c : Char) : Nat :=
  if c.isDigit then c.toNat - 48
  else if 97 ≤ c.toNat then c.toNat - 87
  else c.toNat - 55

def numberIn (base : Nat) (digits : List Char) : Nat :=
  digits.foldl (fun n c => base * n + hexValue c) 0

def octet? (part : List Char) : Option Nat :=
  if part.isEmpty || 3 < part.length || !part.all Char.isDigit then none
  else if 1 < part.length && part.head? = some '0' then none
  else if numberIn 10 part < 256 then some (numberIn 10 part)
  else none

def ipv4? (text : List Char) : Option Nat :=
  match (splitOnChar '.' text).map octet? with
  | [some a, some b, some c, some d] => some (((a * 256 + b) * 256 + c) * 256 + d)
  | _ => none

def group? (part : List Char) : Option Nat :=
  if part.isEmpty || 4 < part.length || !part.all isHexDigit then none
  else some (numberIn 16 part)

/-- The groups of a run without `::`; a dotted address may end the last run. -/
def groups? (dotted : Bool) : List (List Char) → Option (List Nat)
  | [] => some []
  | [part] =>
      match group? part, ipv4? part with
      | some g, _ => some [g]
      | none, some n => if dotted then some [n / 65536, n % 65536] else none
      | none, none => none
  | part :: parts => do
      let g ← group? part
      let gs ← groups? dotted parts
      some (g :: gs)

def run? (dotted : Bool) (text : List Char) : Option (List Nat) :=
  if text.isEmpty then some [] else groups? dotted (splitOnChar ':' text)

/-- The texts before and after the first `::`. -/
def splitGap : List Char → Option (List Char × List Char)
  | ':' :: ':' :: rest => some ([], rest)
  | c :: cs => (splitGap cs).map fun (before, after) => (c :: before, after)
  | [] => none

def isZoneChar (c : Char) : Bool := c.isAlphanum || c = '-' || c = '.' || c = ':'

def withoutZone (text : List Char) : Option (List Char) :=
  match splitOnChar '%' text with
  | [address] => some address
  | [address, zone] => if !zone.isEmpty && zone.all isZoneChar then some address else none
  | _ => none

def ofGroups (groups : List Nat) : Nat := groups.foldl (fun n g => 65536 * n + g) 0

def ipv6? (text : List Char) : Option Nat := do
  let address ← withoutZone text
  match splitGap address with
  | none =>
      let groups ← run? true address
      if groups.length = 8 then some (ofGroups groups) else none
  | some (before, after) =>
      let left ← run? false before
      let right ← run? true after
      let missing := 8 - (left.length + right.length)
      if missing = 0 then none
      else some (ofGroups (left ++ List.replicate missing 0 ++ right))

def isIPv4 (ip : String) : Bool := (ipv4? ip.toList).isSome

def isIPv6 (ip : String) : Bool := (ipv6? ip.toList).isSome

/-! ## Block lists -/

inductive Family
  | ipv4
  | ipv6
  deriving DecidableEq, Repr

structure BlockList where
  ipv4 : List (Nat × Nat)
  ipv6 : List (Nat × Nat)

def BlockList.empty : BlockList := ⟨[], []⟩

/-- `addSubnet`; a text that is no address of the family throws, and adds
nothing. -/
def BlockList.addSubnet (bl : BlockList) (net : String) (bits : Nat) :
    Family → BlockList
  | .ipv4 =>
      match ipv4? net.toList with
      | none => bl
      | some n => { bl with ipv4 := bl.ipv4 ++ [(n, bits)] }
  | .ipv6 =>
      match ipv6? net.toList with
      | none => bl
      | some n => { bl with ipv6 := bl.ipv6 ++ [(n, bits)] }

/-- An address is a subnet of its own. -/
def BlockList.addAddress (bl : BlockList) (address : String) : Family → BlockList
  | .ipv4 => bl.addSubnet address 32 .ipv4
  | .ipv6 => bl.addSubnet address 128 .ipv6

def sameSubnet (width : Nat) (n : Nat) (subnet : Nat × Nat) : Bool :=
  n / 2 ^ (width - subnet.2) = subnet.1 / 2 ^ (width - subnet.2)

def BlockList.check (bl : BlockList) (ip : String) : Family → Bool
  | .ipv4 =>
      match ipv4? ip.toList with
      | none => false
      | some n => bl.ipv4.any (sameSubnet 32 n)
  | .ipv6 =>
      match ipv6? ip.toList with
      | none => false
      | some n => bl.ipv6.any (sameSubnet 128 n) ||
          (n / 2 ^ 32 = 65535 && bl.ipv4.any (sameSubnet 32 (n % 2 ^ 32)))

end CleanStack.Kit
