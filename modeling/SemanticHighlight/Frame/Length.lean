import SemanticHighlight.Duration
import SemanticHighlight.IoError
import SemanticHighlight.Text.Quoted
import SemanticHighlight.Text.Utf8

/-!
# Length fields

A frame is a length field of ten decimal digits and as many bytes as the field says. `encodeLength`
and `decodeLength` are inverse to each other on lengths that ten digits can write and on fields of
ten digits.
-/

set_option autoImplicit false

namespace SemanticHighlight.Frame

def fieldLength : Nat := 10

def maxLength : Nat := 9999999999

inductive Error where
  | io (cause : IoError)
  /-- The stream ended after `read` of `expected` bytes. -/
  | unexpectedEof (expected read : Nat)
  | invalidLength (field : String)
  | tooLarge (length : Nat)
  | timeout (after : Duration)
  deriving DecidableEq, Repr

def Error.message : Error → String
  | .io cause => "pipe I/O error: " ++ cause.message
  | .unexpectedEof expected read =>
    "peer closed the pipe after " ++ Text.Decimal.text read ++ " of " ++
      Text.Decimal.text expected ++ " bytes"
  | .invalidLength field => "invalid frame length field: " ++ Text.quoted field
  | .tooLarge length =>
    "frame of " ++ Text.Decimal.text length ++ " bytes exceeds the " ++
      Text.Decimal.text maxLength ++ " byte limit"
  | .timeout after => "no data from peer within " ++ Duration.text after

def digitByte (n : Nat) : UInt8 := UInt8.ofNat (48 + n % 10)

def isDigitByte (b : UInt8) : Bool := 48 ≤ b && b ≤ 57

def lastDigits : Nat → Nat → Bytes
  | 0, _ => []
  | count + 1, n => lastDigits count (n / 10) ++ [digitByte n]

def encodeLength (n : Nat) : Except Error Bytes :=
  if n > maxLength then .error (.tooLarge n) else .ok (lastDigits fieldLength n)

def fieldValue (field : Bytes) : Nat := field.foldl (fun n b => n * 10 + (b.toNat - 48)) 0

def decodeLength (field : Bytes) : Except Error Nat :=
  if field.all isDigitByte then .ok (fieldValue field)
  else .error (.invalidLength (Text.lossy field))

end SemanticHighlight.Frame
