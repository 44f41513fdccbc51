import SemanticHighlight.Frame.Reader
import SemanticHighlight.Frame.Writer
import SemanticHighlight.Worker.Program

/-!
# Worker processes

A running worker: the program and the arguments it was started with, the requests it has received,
and what it has written that has not been read yet. A round trip sends one frame and reads one frame
back before a deadline.
-/

set_option autoImplicit false

namespace SemanticHighlight

structure Process where
  pid : Nat
  program : Program
  args : List String
  served : List Bytes := []
  pending : Bytes := []
  alive : Bool := true

structure RoundTrip where
  reply : Except Frame.Error Bytes
  process : Process
  elapsed : Duration
  additions : List Addition := []

namespace Process

/-- Reads what comes after the delay, if that is before the deadline. -/
def await (p : Process) (timeout : Duration) (available : Bytes) (r : Reaction) : RoundTrip :=
  if timeout ≤ r.delay then ⟨.error (.timeout timeout), p, timeout, r.additions⟩
  else
    let written := available ++ r.output
    let source :=
      if r.exits then Frame.Source.closed written else Frame.Source.untilDeadline written timeout
    match Frame.read source with
    | (.ok payload, rest) => ⟨.ok payload, { p with pending := rest.pending }, r.delay, r.additions⟩
    | (.error (.timeout after), _) => ⟨.error (.timeout after), p, after, r.additions⟩
    | (.error e, _) => ⟨.error e, p, r.delay, r.additions⟩

/-- Reads the reply to a request that has been written: from what is there at once if that is
enough. Output that comes at the deadline or later is not seen. -/
def receive (p : Process) (timeout : Duration) (request : Bytes) (r : Reaction) : RoundTrip :=
  let asked := { p with served := p.served ++ [request], alive := p.alive && !r.exits }
  let available := p.pending ++ r.early
  match Frame.read (.untilDeadline available timeout) with
  | (.ok payload, rest) =>
    ⟨.ok payload, { asked with pending := rest.pending ++ r.output }, 0, r.additions⟩
  | (.error (.timeout _), _) => asked.await timeout available r
  | (.error e, _) => ⟨.error e, asked, 0, r.additions⟩

/-- Sends a request and reads the reply. The deadline is one for the reply: it does not run while the
request is written. -/
def roundTrip (p : Process) (timeout : Duration) (request : Bytes) : RoundTrip :=
  match Frame.encode request with
  | .error e => ⟨.error e, p, 0, []⟩
  | .ok _ =>
    let r := p.program p.args p.served request
    match r.intake.failure? with
    | some cause =>
      ⟨.error (.io cause), { p with alive := p.alive && !r.exits }, r.delay, r.additions⟩
    | none => p.receive timeout request r

/-- The round trip with a request does not end while the worker lives. -/
def stalls (p : Process) (request : Bytes) : Bool :=
  (Frame.encode request).toOption.isSome && (p.program p.args p.served request).intake = .unread

end Process

end SemanticHighlight
