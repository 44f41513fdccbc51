import SemanticHighlight.Duration
import SemanticHighlight.IoError
import SemanticHighlight.Text.Utf8

/-!
# Sources

What the reads of a stream give, one after the other. A read takes at most one piece and leaves what
it does not take; an empty piece, and the end of the list, is the end of the stream to the reader
that meets it. An interrupted read is tried again; any other failure ends the reading.
-/

set_option autoImplicit false

namespace SemanticHighlight.Frame

inductive ReadFailure where
  | expired (after : Duration)
  | timedOut (cause : IoError)
  | failed (cause : IoError)
  deriving DecidableEq, Repr

inductive ReadEvent where
  | piece (bs : Bytes)
  | interrupted
  | failure (cause : ReadFailure)
  deriving DecidableEq, Repr

abbrev Source := List ReadEvent

namespace Source

def closed (bs : Bytes) : Source := if bs = [] then [] else [.piece bs]

/-- A stream that holds `bs`, stays open, and is read until a deadline. -/
def untilDeadline (bs : Bytes) (after : Duration) : Source :=
  if after = 0 then [.failure (.expired after)]
  else closed bs ++ [.failure (.expired after)]

def size : Source → Nat
  | [] => 0
  | .piece bs :: s => bs.length + size s
  | _ :: s => size s

def pending : Source → Bytes
  | [] => []
  | .piece bs :: s => bs ++ pending s
  | _ :: s => pending s

/-- Reads until there are `n` bytes or the stream ends. -/
def take (n : Nat) : Source → Except ReadFailure Bytes × Source
  | [] => (.ok [], [])
  | e :: s =>
    if n = 0 then (.ok [], e :: s)
    else match e with
      | .interrupted => take n s
      | .failure f => (.error f, s)
      | .piece bs =>
        if bs = [] then (.ok [], s)
        else if n < bs.length then (.ok (bs.take n), .piece (bs.drop n) :: s)
        else match take (n - bs.length) s with
          | (.ok more, s) => (.ok (bs ++ more), s)
          | (.error f, s) => (.error f, s)

theorem size_take {n : Nat} {s s' : Source} {bs : Bytes} (h : take n s = (.ok bs, s')) :
    s'.size + bs.length = s.size := by
  fun_induction take n s generalizing bs s' <;> grind [size]

end Source

end SemanticHighlight.Frame
