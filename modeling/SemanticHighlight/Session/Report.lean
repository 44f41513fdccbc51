import SemanticHighlight.Session.Pass

/-!
# Reports

What is told about an external pass that was asked for in the background: one report for each.
-/

set_option autoImplicit false

namespace SemanticHighlight.Session

inductive Report where
  | flushed (buffer : BufferId) (sent : Nat)
  | dropped (buffer : BufferId)
  | failed (buffer : BufferId) (text : String)
  deriving DecidableEq, Repr

namespace Report

def buffer : Report → BufferId
  | .flushed b _ => b
  | .dropped b => b
  | .failed b _ => b

def ofResult (b : BufferId) : Except Error External → Report
  | .ok (.flushed sent) => .flushed b sent
  | .ok .dropped => .dropped b
  | .error e => .failed b e.message

end Report

end SemanticHighlight.Session
