/-!
# Decimal numbers

Numbers as ASCII digits. `read?` takes leading zeros and one plus sign, refuses an empty digit
string and a value at or above its bound, and reads back what `digits` writes.
-/

set_option autoImplicit false

namespace SemanticHighlight.Text.Decimal

def digit (n : Nat) : Char := Char.ofNat (48 + n % 10)

def digits (n : Nat) : List Char :=
  if n < 10 then [digit n] else digits (n / 10) ++ [digit n]
termination_by n
decreasing_by omega

def text (n : Nat) : String := String.ofList (digits n)

def intText : Int → String
  | .ofNat n => text n
  | .negSucc n => "-" ++ text (n + 1)

def value (cs : List Char) : Nat := cs.foldl (fun n c => n * 10 + (c.toNat - 48)) 0

def read? (bound : Nat) (cs : List Char) : Option Nat :=
  let ds := if cs.head? = some '+' then cs.tail else cs
  if ds ≠ [] ∧ ds.all Char.isDigit ∧ value ds < bound then some (value ds) else none

theorem value_append_digit (cs : List Char) (c : Char) :
    value (cs ++ [c]) = value cs * 10 + (c.toNat - 48) := by
  simp [value]

theorem toNat_digit (n : Nat) : (digit n).toNat = 48 + n % 10 := by
  have h : (48 + n % 10).isValidChar := Or.inl (by omega)
  rw [digit, Char.ofNat, dif_pos h]
  rfl

theorem isDigit_digit (n : Nat) : (digit n).isDigit = true := by
  have h := toNat_digit n
  simp only [Char.toNat] at h
  simp only [Char.isDigit, Bool.and_eq_true, decide_eq_true_eq, ge_iff_le,
    UInt32.le_iff_toNat_le, h]
  constructor
  · simp
  · simp; omega

theorem digits_ne_nil (n : Nat) : digits n ≠ [] := by
  rw [digits]
  split <;> simp

theorem all_isDigit_digits (n : Nat) : (digits n).all Char.isDigit = true := by
  fun_induction digits n with
  | case1 n _ => simp [isDigit_digit]
  | case2 n _ ih => simp [isDigit_digit, ih]

theorem isDigit_of_mem_digits {n : Nat} {c : Char} (h : c ∈ digits n) : c.isDigit = true :=
  List.all_eq_true.1 (all_isDigit_digits n) c h

theorem value_digits (n : Nat) : value (digits n) = n := by
  fun_induction digits n with
  | case1 n h => simp [value, toNat_digit]; omega
  | case2 n h ih => rw [value_append_digit, ih, toNat_digit]; omega

theorem head?_digits_ne_plus (n : Nat) : (digits n).head? ≠ some '+' := by
  intro h
  exact absurd (isDigit_of_mem_digits (List.mem_of_head? h)) (by decide)

theorem read?_digits {bound n : Nat} (h : n < bound) : read? bound (digits n) = some n := by
  simp [read?, head?_digits_ne_plus, digits_ne_nil, all_isDigit_digits, value_digits, h]

end SemanticHighlight.Text.Decimal
