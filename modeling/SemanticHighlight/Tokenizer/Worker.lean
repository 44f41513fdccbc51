import SemanticHighlight.Frame.Reader
import SemanticHighlight.Frame.Writer
import SemanticHighlight.Machine
import SemanticHighlight.Text.Blank
import SemanticHighlight.Tokenizer.Basic

/-!
# The tokenizer as a worker

The tokenizer answers each request, a frame with a source text, with a frame of records. Variables
of its environment make it late, make it quit before a request, cut a reply short, or make it trace
what it does, in a file or among its output or diagnostics. `program` is the worker as a session
runs it; `run` is the command on an input that ends.
-/

set_option autoImplicit false

namespace SemanticHighlight.Tokenizer

inductive Trace where
  | nowhere
  | file (path : String)
  | output
  | diagnostics
  deriving DecidableEq, Repr

namespace Trace

def ofMachine (m : Machine) : Trace :=
  match (m.env? "TAGHL_STUB_TRACE_PATH").filter (· ≠ "") with
  | none => .nowhere
  | some path =>
    match m.files.open? path m.here with
    | .ok (.device .output) => .output
    | .ok (.device .diagnostics) => .diagnostics
    | _ => .file path

def additions (trace : Trace) (lines : String) : List Addition :=
  match trace with
  | .file path => [⟨path, Text.bytes lines⟩]
  | _ => []

end Trace

structure Knobs where
  delay : Duration := 0
  /-- The number of requests that are served. -/
  exitAfter? : Option Nat := none
  truncate : Bool := false
  trace : Trace := .nowhere
  deriving DecidableEq, Repr

def u64? (text : String) : Option Nat := Text.Decimal.read? UInt64.size (Text.trim text.toList)

def Knobs.ofMachine (m : Machine) : Knobs where
  delay := (((m.env? "TAGHL_STUB_DELAY_MS").bind u64?).map Duration.ofMillis).getD 0
  exitAfter? := (m.env? "TAGHL_STUB_EXIT_AFTER").bind u64?
  truncate := (m.env? "TAGHL_STUB_TRUNCATE").any (· ≠ "")
  trace := .ofMachine m

structure Turn where
  early : Bytes := []
  output : Bytes := []
  diagnostics : String := ""
  kept : String := ""
  delay : Duration := 0
  exit? : Option Nat := none

/-- Traces a line before all else in a turn. -/
def Turn.traced (t : Turn) (trace : Trace) (line : String) : Turn :=
  match trace with
  | .nowhere => t
  | .file _ => { t with kept := line ++ "\n" ++ t.kept }
  | .output => { t with early := Text.bytes (line ++ "\n") ++ t.early }
  | .diagnostics => { t with diagnostics := line ++ "\n" ++ t.diagnostics }

def isDebug (args : List String) : Bool := args[1]? = some "1"

def complaint (e : Frame.Error) : String := "taghl_worker_stub: " ++ e.message ++ "\n"

def size (bs : Bytes) : String := Text.Decimal.text bs.length

/-- Sends a reply, or, if replies are cut short, sends it as if one more byte followed and quits. -/
def send (k : Knobs) (reply : Bytes) (t : Turn) : Turn :=
  if k.truncate then
    match Frame.encodeLength (reply.length + 1) with
    | .ok field => { t with output := field ++ reply, exit? := some 0 }
    | .error _ => { t with exit? := some 1 }
  else
    match Frame.encode reply with
    | .ok frame => { t with output := frame }
    | .error e => { t with diagnostics := t.diagnostics ++ complaint e, exit? := some 1 }

def greeting (k : Knobs) (args : List String) : Turn :=
  ({} : Turn).traced k.trace ("argv " ++ String.intercalate " " args)

def turn (k : Knobs) (args : List String) (served : Nat) (request : Bytes) : Turn :=
  if k.exitAfter?.any (· ≤ served) then ({ exit? := some 0 } : Turn).traced k.trace "exit"
  else
    let reply := Text.bytes (tokenize (Text.lossy request))
    let title := "request " ++ Text.Decimal.text (served + 1)
    let report := title ++ ": " ++ size request ++ " bytes in, " ++ size reply ++ " bytes out\n"
    let t : Turn := { diagnostics := if isDebug args then report else "", delay := k.delay }
    send k reply (t.traced k.trace (title ++ " bytes=" ++ size request))

def program (k : Knobs) : Program := fun args served request =>
  let start : Turn := if served = [] then greeting k args else {}
  let t := turn k args served.length request
  { early := start.early ++ t.early
    output := t.output
    delay := t.delay
    exits := t.exit?.isSome
    additions := k.trace.additions (start.kept ++ t.kept) }

structure Ending where
  code : Nat
  output : Bytes := []
  diagnostics : String := ""
  kept : String := ""

def Ending.after (t : Turn) (e : Ending) : Ending where
  code := e.code
  output := t.early ++ t.output ++ e.output
  diagnostics := t.diagnostics ++ e.diagnostics
  kept := t.kept ++ e.kept

/-- Serves requests until the input ends, is no frame, or the worker quits. -/
def serve (k : Knobs) (args : List String) (served : Nat) (s : Frame.Source) : Ending :=
  match _h : Frame.read s with
  | (.error (.unexpectedEof _ 0), _) => { code := 0 }
  | (.error e, _) => { code := 1, diagnostics := complaint e }
  | (.ok request, s') =>
    let t := turn k args served request
    match t.exit? with
    | some code => .after t { code }
    | none => .after t (serve k args (served + 1) s')
termination_by s.size
decreasing_by exact Frame.size_read _h

def run (m : Machine) (args : List String) (input : Bytes) : Ending × Machine :=
  let k := Knobs.ofMachine m
  let e := Ending.after (greeting k args) (serve k args 0 (.closed input))
  (e, (k.trace.additions e.kept).foldl Machine.add m)

end SemanticHighlight.Tokenizer
