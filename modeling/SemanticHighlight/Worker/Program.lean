import SemanticHighlight.Duration
import SemanticHighlight.IoError
import SemanticHighlight.Text.Utf8

/-!
# Programs

What an executable does as a worker: how it answers a request, given its arguments and the requests
it has served before.
-/

set_option autoImplicit false

namespace SemanticHighlight

/-- Bytes for the end of a file, which is made if it is missing. -/
structure Addition where
  path : String
  content : Bytes
  deriving DecidableEq, Repr

/-- What becomes of a request that is written to a worker. -/
inductive Intake where
  | whole
  | broken (cause : IoError)
  /-- The worker lives on, and leaves more of the request unread than the pipe can hold. -/
  | unread
  deriving DecidableEq, Repr

/-- Why a write fails, if it ends. What is left unread can be written as long as there is a worker,
so that such a write does not end before the worker does. -/
def Intake.failure? : Intake → Option IoError
  | .whole => none
  | .broken cause => some cause
  | .unread => some .brokenPipe

structure Reaction where
  intake : Intake := .whole
  early : Bytes := []
  output : Bytes := []
  /-- The time until the output is written, or until the write of the request fails. -/
  delay : Duration := 0
  exits : Bool := false
  additions : List Addition := []

abbrev Program := List String → List Bytes → Bytes → Reaction

/-- What starting a program with some arguments gives. -/
abbrev Launcher := String → List String → Except IoError Program

end SemanticHighlight
