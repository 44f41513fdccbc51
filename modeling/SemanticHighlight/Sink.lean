import SemanticHighlight.IoError
import SemanticHighlight.Text.Utf8

/-!
# Sinks

A writer that takes a limited number of bytes, or any number. A write that does not fit takes what
fits and fails; once the room is used up every write of at least one byte fails. A flush fails
always or never.
-/

set_option autoImplicit false

namespace SemanticHighlight

structure Sink where
  written : Bytes := []
  /-- The bytes still taken; none for any number. -/
  room : Option Nat := none
  refusal : IoError := .writerFull
  flushFailure : Option IoError := none

namespace Sink

def write (s : Sink) (bs : Bytes) : Except IoError Unit × Sink :=
  match s.room with
  | none => (.ok (), { s with written := s.written ++ bs })
  | some r =>
    if bs.length ≤ r then
      (.ok (), { s with written := s.written ++ bs, room := some (r - bs.length) })
    else (.error s.refusal, { s with written := s.written ++ bs.take r, room := some 0 })

def writeEach (s : Sink) : List Bytes → Except IoError Unit × Sink
  | [] => (.ok (), s)
  | c :: cs =>
    match s.write c with
    | (.ok (), s) => s.writeEach cs
    | (.error e, s) => (.error e, s)

def flush (s : Sink) : Except IoError Unit :=
  match s.flushFailure with
  | none => .ok ()
  | some e => .error e

end Sink

end SemanticHighlight
