import SemanticHighlight.Frame.Source

/-!
# Reading before a deadline

A reader with a deadline looks whether the stream can be read before each of its reads. Before each
look it sees what time it is: once the deadline has passed it gives up, and it is only then that a
read fails because of the deadline. A look that is interrupted or finds nothing is followed by
another one.
-/

set_option autoImplicit false

namespace SemanticHighlight.Frame

inductive Look where
  | interrupted
  | silent
  | failed (cause : IoError)
  | ready (event : ReadEvent)
  deriving DecidableEq, Repr

structure Glance where
  elapsed : Duration
  look : Look
  deriving DecidableEq, Repr

/-- What the reads of a reader give whose time is over after `after`. -/
def Source.before (after : Duration) : List Glance → Source
  | [] => []
  | g :: gs =>
    if after ≤ g.elapsed then .failure (.expired after) :: before after gs
    else match g.look with
      | .interrupted | .silent => before after gs
      | .failed cause => .failure (.failed cause) :: before after gs
      | .ready event => event :: before after gs

end SemanticHighlight.Frame
