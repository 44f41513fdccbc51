import SemanticHighlight.Worker.Slot

/-!
# Worker pools

One slot for each buffer that has been admitted, with a limited number of permits. A permit belongs
to the slot it was taken from: shutting a buffer down forgets its slot, and a slot that is forgotten
lives on, unseen, until its last permit is returned.
-/

set_option autoImplicit false

namespace SemanticHighlight.Worker

abbrev SlotId := Nat

structure Permit where
  buffer : BufferId
  slot : SlotId
  deriving DecidableEq, Repr

structure Pool where
  config : WorkerConfig
  current : Keyed BufferId SlotId := {}
  slots : Keyed SlotId Slot := {}
  issued : Nat := 0
  /-- How many exchanges there have been; a process is known by the exchange that started it. -/
  exchanges : Nat := 0

structure Invocation where
  /-- None if the request was not admitted. -/
  reply : Except Error (Option String)
  pool : Pool
  finished : Instant
  additions : List Addition := []

namespace Pool

def slot? (p : Pool) (b : BufferId) : Option Slot := (p.current.get? b).bind p.slots.get?

def claim (p : Pool) (b : BufferId) : SlotId × Slot × Pool :=
  match p.current.get? b with
  | some i => (i, (p.slots.get? i).getD {}, p)
  | none =>
    (p.issued, {}, { p with
      current := p.current.set b p.issued
      slots := p.slots.set p.issued {}
      issued := p.issued + 1 })

def tryAdmit (p : Pool) (b : BufferId) : Option Permit × Pool :=
  let (i, s, p) := p.claim b
  if s.inFlight + 1 > p.config.maxInFlight then (none, p)
  else (some ⟨b, i⟩, { p with slots := p.slots.set i { s with inFlight := s.inFlight + 1 } })

def release (p : Pool) (permit : Permit) : Pool :=
  match p.slots.get? permit.slot with
  | none => p
  | some s =>
    let s := { s with inFlight := s.inFlight - 1 }
    if s.inFlight = 0 ∧ p.current.get? permit.buffer ≠ some permit.slot then
      { p with slots := p.slots.erase permit.slot }
    else { p with slots := p.slots.set permit.slot s }

def exchange (p : Pool) (m : Moment) (permit : Permit) (t : Target) (request : Bytes) :
    Exchange × Pool :=
  let e := ((p.slots.get? permit.slot).getD {}).exchange p.config m p.exchanges t request
  (e, { p with slots := p.slots.set permit.slot e.slot, exchanges := p.exchanges + 1 })

def invoke (p : Pool) (m : Moment) (t : Target) (request : Bytes) : Invocation :=
  match p.tryAdmit t.buffer with
  | (none, p) => { reply := .ok none, pool := p, finished := m.now }
  | (some permit, p) =>
    let (e, p) := p.exchange m permit t request
    ⟨e.reply.map some, p.release permit, e.finished, e.additions⟩

def stalls (p : Pool) (m : Moment) (permit : Permit) (t : Target) (request : Bytes) : Bool :=
  ((p.slots.get? permit.slot).getD {}).stalls p.config m p.exchanges t request

/-- The invocation does not end while the worker lives. -/
def invokeStalls (p : Pool) (m : Moment) (t : Target) (request : Bytes) : Bool :=
  match p.tryAdmit t.buffer with
  | (none, _) => false
  | (some permit, p) => p.stalls m permit t request

/-- Stops the buffer's worker and forgets its slot. -/
def shutdown (p : Pool) (b : BufferId) : Pool :=
  match p.current.get? b with
  | none => p
  | some i =>
    let current := p.current.erase b
    match p.slots.get? i with
    | none => { p with current }
    | some s =>
      if s.inFlight = 0 then { p with current, slots := p.slots.erase i }
      else { p with current, slots := p.slots.set i { s with process? := none } }

def processDied (p : Pool) (b : BufferId) : Pool :=
  match p.current.get? b with
  | none => p
  | some i =>
    match p.slots.get? i with
    | none => p
    | some s =>
      let process? := s.process?.map fun q => { q with alive := false }
      { p with slots := p.slots.set i { s with process? } }

def phase (p : Pool) (b : BufferId) : Phase := ((p.slot? b).map Slot.phase).getD .notStarted

def inFlight (p : Pool) (b : BufferId) : Nat := ((p.slot? b).map Slot.inFlight).getD 0

def pid? (p : Pool) (b : BufferId) : Option Nat := ((p.slot? b).bind Slot.process?).map Process.pid

end Pool

end SemanticHighlight.Worker
