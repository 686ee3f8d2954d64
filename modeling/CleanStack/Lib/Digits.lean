import Mathlib.Algebra.Group.Nat.Defs
import Mathlib.Data.List.Lex

/-!
# Numbers written with a fixed number of digits

Written with as many digits, in a base whose digits are in order, two numbers
compare as texts the way they do as numbers. So do two texts of one length when
something is appended to each, or put in at one place of both.
-/

namespace CleanStack.Lib

variable {σ : Type*} {r : σ → σ → Prop}

/-- The lowest `k` digits of a number, the highest first. -/
def digitsOf (digit : Nat → σ) (b : Nat) : Nat → Nat → List σ
  | 0, _ => []
  | k + 1, n => digitsOf digit b k (n / b) ++ [digit (n % b)]

theorem length_digitsOf (digit : Nat → σ) (b k n : Nat) : (digitsOf digit b k n).length = k := by
  induction k generalizing n with
  | zero => rfl
  | succ k ih => rw [digitsOf, List.length_append, ih, List.length_singleton]

theorem digitsOf_zero (digit : Nat → σ) (b k : Nat) :
    digitsOf digit b k 0 = List.replicate k (digit 0) := by
  induction k with
  | zero => rfl
  | succ k ih => rw [digitsOf, Nat.zero_div, Nat.zero_mod, ih, List.replicate_succ']

/-- The highest digit. -/
theorem digitsOf_cons (digit : Nat → σ) (b k n : Nat) :
    digitsOf digit b (k + 1) n = digit (n / b ^ k % b) :: digitsOf digit b k n := by
  induction k generalizing n with
  | zero => rw [Nat.pow_zero, Nat.div_one]; rfl
  | succ k ih =>
    rw [digitsOf, ih, Nat.div_div_eq_div_mul, ← Nat.pow_succ', List.cons_append]
    rfl

theorem forall_digitsOf {digit : Nat → σ} {b : Nat} {p : σ → Prop} (hb : 0 < b)
    (hp : ∀ d < b, p (digit d)) (k n : Nat) : ∀ c ∈ digitsOf digit b k n, p c := by
  induction k generalizing n with
  | zero => simp [digitsOf]
  | succ k ih =>
    intro c hc
    rw [digitsOf, List.mem_append, List.mem_singleton] at hc
    rcases hc with hc | rfl
    · exact ih _ c hc
    · exact hp _ (Nat.mod_lt n hb)

/-! ## Order -/

theorem lex_append {x y : List σ} (h : List.Lex r x y) (hlen : x.length = y.length)
    (s t : List σ) : List.Lex r (x ++ s) (y ++ t) := by
  induction h with
  | nil => cases hlen
  | rel h => exact .rel h
  | cons _ ih => exact .cons (ih (Nat.succ.inj hlen))

theorem lex_digitsOf {digit : Nat → σ} {b : Nat} (hb : 0 < b)
    (hdigit : ∀ d e, d < e → e < b → r (digit d) (digit e)) {k m n : Nat} (hmn : m < n)
    (hn : n < b ^ k) : List.Lex r (digitsOf digit b k m) (digitsOf digit b k n) := by
  induction k generalizing m n with
  | zero =>
    rw [Nat.pow_zero] at hn
    omega
  | succ k ih =>
    rw [digitsOf, digitsOf]
    have hhigh : n / b < b ^ k := Nat.div_lt_of_lt_mul (by rwa [Nat.mul_comm, ← Nat.pow_succ])
    rcases Nat.lt_or_eq_of_le (Nat.div_le_div_right (c := b) hmn.le) with hlt | heq
    · exact lex_append (ih hlt hhigh) (by rw [length_digitsOf, length_digitsOf]) _ _
    · rw [heq]
      refine List.Lex.append_left r (.rel (hdigit _ _ ?_ (Nat.mod_lt n hb))) _
      have hm := Nat.div_add_mod m b
      have hn := Nat.div_add_mod n b
      rw [heq] at hm
      omega

/-- The same text put in at one place. -/
theorem lex_insert {x y : List σ} (h : List.Lex r x y) (hlen : x.length = y.length) (mid : List σ)
    (n : Nat) : List.Lex r (x.take n ++ (mid ++ x.drop n)) (y.take n ++ (mid ++ y.drop n)) := by
  induction h generalizing n with
  | nil => cases hlen
  | rel h =>
    cases n with
    | zero => exact List.Lex.append_left r (.rel h) mid
    | succ n => exact .rel h
  | cons htail ih =>
    cases n with
    | zero => exact List.Lex.append_left r (.cons htail) mid
    | succ n => exact .cons (ih (Nat.succ.inj hlen) n)

end CleanStack.Lib
