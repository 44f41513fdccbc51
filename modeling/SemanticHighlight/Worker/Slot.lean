import SemanticHighlight.Highlight.Op
import SemanticHighlight.Path
import SemanticHighlight.Settings.Basic
import SemanticHighlight.Worker.Process

/-!
# Worker slots

What is kept for the worker of one buffer. A worker is started by the first exchange, and again by
an exchange that finds it gone; after a failed start no new one is tried before a delay has passed,
which doubles with every failure in a row up to five seconds.
-/

set_option autoImplicit false

namespace SemanticHighlight

structure Target where
  buffer : BufferId
  file : String
  directory : String
  root : String
  deriving DecidableEq, Repr

def Target.ofFile (buffer : BufferId) (file root : String) : Target where
  buffer := buffer
  file := file
  directory := (Path.parent? file).getD ""
  root := root

namespace WorkerConfig

/-- The arguments a worker is started with, its own name left out. -/
def arguments (c : WorkerConfig) (t : Target) : List String :=
  [c.invokerName, if c.debug then "1" else "0", t.file, t.directory, t.root]

end WorkerConfig

namespace Worker

inductive Error where
  | spawn (cause : IoError)
  | protocol (cause : Frame.Error)
  | invalidUtf8
  | unavailable (retryIn : Duration)
  deriving DecidableEq, Repr

def Error.message : Error → String
  | .spawn cause => "failed to start worker: " ++ cause.message
  | .protocol cause => "worker protocol error: " ++ cause.message
  | .invalidUtf8 => "worker reply is not valid UTF-8"
  | .unavailable retryIn => "worker restart pending, retry in " ++ Duration.text retryIn

inductive Phase where
  | notStarted
  | starting
  | running
  | restarting
  | failed
  deriving DecidableEq, Repr

structure Slot where
  /-- Permits given out and not yet returned. -/
  inFlight : Nat := 0
  started : Bool := false
  phase : Phase := .notStarted
  process? : Option Process := none
  failures : Nat := 0
  retryAt? : Option Instant := none

structure Moment where
  now : Instant
  launch : Launcher

structure Exchange where
  reply : Except Error String
  slot : Slot
  finished : Instant
  additions : List Addition := []

namespace Slot

/-- Failures are counted in 32 bits and stay at the last count. -/
def maxFailures : Nat := UInt32.size - 1

def backoff (n : Nat) : Duration := Duration.ofMillis (min (200 * Nat.pow 2 (min (n - 1) 6)) 5000)

def launch (c : WorkerConfig) (m : Moment) (pid : Nat) (t : Target) (s : Slot) :
    Except Error Unit × Slot :=
  match m.launch c.binary (c.arguments t) with
  | .ok program =>
    (.ok (), { s with
      process? := some { pid, program, args := c.arguments t }
      phase := .running
      failures := 0
      retryAt? := none })
  | .error e =>
    let failures := min (s.failures + 1) maxFailures
    (.error (.spawn e), { s with
      phase := .failed
      failures
      retryAt? := some (m.now + backoff failures) })

def start (c : WorkerConfig) (m : Moment) (pid : Nat) (t : Target) (s : Slot) :
    Except Error Unit × Slot :=
  match s.retryAt? with
  | some retryAt =>
    if m.now < retryAt then (.error (.unavailable (retryAt - m.now)), s) else launch c m pid t s
  | none => launch c m pid t s

def ensureRunning (c : WorkerConfig) (m : Moment) (pid : Nat) (t : Target) (s : Slot) :
    Except Error Unit × Slot :=
  if s.started then
    match s.process? with
    | some p =>
      if p.alive then (.ok (), s)
      else start c m pid t { s with process? := none, phase := .restarting }
    | none => start c m pid t s
  else start c m pid t { s with started := true, phase := .starting }

/-- The process that gets the request of an exchange. -/
def serving? (c : WorkerConfig) (m : Moment) (pid : Nat) (t : Target) (s : Slot) :
    Option Process :=
  match ensureRunning c m pid t s with
  | (.ok (), s) => s.process?
  | (.error _, _) => none

def exchange (c : WorkerConfig) (m : Moment) (pid : Nat) (t : Target) (request : Bytes) (s : Slot) :
    Exchange :=
  match ensureRunning c m pid t s with
  | (.error e, s) => { reply := .error e, slot := s, finished := m.now }
  | (.ok (), s) =>
    match s.process? with
    | none => {
        reply := .error (.spawn (.other "worker process missing after start"))
        slot := { s with phase := .restarting }
        finished := m.now }
    | some p =>
      let trip := p.roundTrip c.readTimeout request
      let finished := m.now + trip.elapsed
      match trip.reply with
      | .error e =>
        ⟨.error (.protocol e), { s with process? := none, phase := .restarting }, finished,
          trip.additions⟩
      | .ok payload =>
        let s := { s with process? := some trip.process }
        match Text.ofBytes? payload with
        | some text => ⟨.ok text, s, finished, trip.additions⟩
        | none => ⟨.error .invalidUtf8, s, finished, trip.additions⟩

def stalls (c : WorkerConfig) (m : Moment) (pid : Nat) (t : Target) (request : Bytes) (s : Slot) :
    Bool :=
  (serving? c m pid t s).any (·.stalls request)

end Slot

end Worker

end SemanticHighlight
