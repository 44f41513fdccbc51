/-!
# Hexadecimal numbers

Numbers as hexadecimal digits, with small letters and no leading zeros.
-/

set_option autoImplicit false

namespace SemanticHighlight.Text.Hexadecimal

def digit (n : Nat) : Char :=
  if n % 16 < 10 then Char.ofNat (48 + n % 16) else Char.ofNat (87 + n % 16)

def digits (n : Nat) : List Char :=
  if n < 16 then [digit n] else digits (n / 16) ++ [digit n]
termination_by n
decreasing_by omega

end SemanticHighlight.Text.Hexadecimal
