import SemanticHighlight.Text.Decimal

/-!
# Durations

Lengths of time in nanoseconds. The text of a duration uses the largest of the units s, ms, µs and
ns that is not larger than the duration, with the digits after the point that are needed.
-/

set_option autoImplicit false

namespace SemanticHighlight

abbrev Duration := Nat

/-- A point in time, as the duration since the clock was started. -/
abbrev Instant := Nat

namespace Duration

def ofMillis (n : Nat) : Duration := n * 1000000

/-- The digits of `n` after the point, `places` of them. -/
def places : Nat → Nat → List Char
  | 0, _ => []
  | k + 1, n => places k (n / 10) ++ [Text.Decimal.digit n]

def dropZeros (cs : List Char) : List Char := (cs.reverse.dropWhile (· = '0')).reverse

def inUnit (n size count : Nat) (unit : String) : String :=
  let fraction := dropZeros (places count (n % size))
  let whole := Text.Decimal.text (n / size)
  if fraction = [] then whole ++ unit else whole ++ "." ++ String.ofList fraction ++ unit

def text (n : Duration) : String :=
  if n < 1000 then inUnit n 1 0 "ns"
  else if n < 1000000 then inUnit n 1000 3 "µs"
  else if n < 1000000000 then inUnit n 1000000 6 "ms"
  else inUnit n 1000000000 9 "s"

end Duration

end SemanticHighlight
