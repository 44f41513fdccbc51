import SemanticHighlight.Proofs.Session.Calls

/-!
# Calls side by side

The calls of a session may be under way at the same time. Each goes on step by step, and between two
of its steps any of the others may go on. Two kinds of locks keep them apart: a pass holds the lock
of its buffer's namespace from before its batch is begun until the batch is sent, and an external
pass holds the lock of its worker's slot as well, from before the exchange until after that.

A call looks its buffer up once and keeps the record it has found. The namespace is not part of the
record: it is in a cell, which all records of one buffer share, so a call that was under way when
its buffer was attached again still uses the namespace that the calls after it use.
-/

set_option autoImplicit false

namespace SemanticHighlight

def Session.Outcome.sent? : Session.Outcome → Option Nat
  | .sent n => some n
  | _ => none

namespace Concurrent

open Session (Outcome TokenStream)

abbrev CallId := Nat

abbrev CellId := Nat

structure Entry where
  info : BufferInfo
  table : GroupTable
  cell : CellId

/-- Something a call has done in view of others: a call of the host, or an exchange. -/
inductive Note where
  | asked (i : CallId) (what : HostCall)
  | exchanged (i : CallId) (reply : Except Worker.Error String)

namespace Note

def create? : Note → Option (Except HostError NamespaceId)
  | .asked _ (.create _ answer) => some answer
  | _ => none

def batch? : Note → Option (CallId × List Op)
  | .asked i (.batch ops _) => some (i, ops)
  | _ => none

def reply? : Note → Option CallId
  | .exchanged i (.ok _) => some i
  | _ => none

end Note

abbrev Log := List Note

namespace Log

def creates (log : Log) : List (Except HostError NamespaceId) := log.filterMap Note.create?

def batches (log : Log) : List (CallId × List Op) := log.filterMap Note.batch?

def sentBy (log : Log) (i : CallId) : List (List Op) :=
  (log.batches.filter (·.1 = i)).map Prod.snd

def replied (log : Log) : List CallId := log.filterMap Note.reply?

@[simp] theorem creates_concat (log : Log) (note : Note) :
    creates (log ++ [note]) = log.creates ++ note.create?.toList := by
  cases h : note.create? <;> simp [creates, h]

@[simp] theorem batches_concat (log : Log) (note : Note) :
    batches (log ++ [note]) = log.batches ++ note.batch?.toList := by
  cases h : note.batch? <;> simp [batches, h]

@[simp] theorem replied_concat (log : Log) (note : Note) :
    replied (log ++ [note]) = log.replied ++ note.reply?.toList := by
  cases h : note.reply? <;> simp [replied, h]

end Log

/-- What the calls of a session share. -/
structure Store (σ : Type) where
  settings : Settings
  workers? : Option Worker.Pool
  tables : Keyed String GroupTable := {}
  buffers : Keyed BufferId Entry := {}
  cells : Nat := 0
  spaces : Keyed CellId NamespaceId := {}
  host : σ
  /-- The calls that hold the lock of a cell. -/
  passLocks : Keyed CellId CallId := {}
  slotLocks : Keyed Worker.SlotId CallId := {}
  log : Log := []

variable {σ : Type}

namespace Store

def start (settings : Settings) (h : σ) : Store σ where
  settings := settings
  workers? := (Session.start settings h).workers?
  host := h

def attachment (s : Store σ) (e : Entry) : Attachment := ⟨e.info, e.table, s.spaces.get? e.cell⟩

/-- The session that the calls find. -/
def session (s : Store σ) : Session σ where
  settings := s.settings
  workers? := s.workers?
  tables := s.tables
  buffers := ⟨s.buffers.entries.map fun (b, e) => (b, s.attachment e)⟩
  host := s.host

def slot? (s : Store σ) (b : BufferId) : Option Worker.SlotId :=
  s.workers?.bind fun p => p.current.get? b

def record (s : Store σ) (info : BufferInfo) (table : GroupTable) : Store σ :=
  match s.buffers.get? info.id with
  | some e => { s with buffers := s.buffers.set info.id ⟨info, table, e.cell⟩ }
  | none => { s with buffers := s.buffers.set info.id ⟨info, table, s.cells⟩, cells := s.cells + 1 }

def told (s : Store σ) (i : CallId) (h : σ) (calls : List HostCall) : Store σ :=
  { s with host := h, log := s.log ++ calls.map (.asked i) }

end Store

inductive Call : Type 1 where
  | attach (info : BufferInfo)
  | tokens (b : BufferId) (stream : TokenStream)
  | external (b : BufferId) (content : String)

def Call.buffer : Call → BufferId
  | .attach info => info.id
  | .tokens b _ => b
  | .external b _ => b

def Call.isExternal : Call → Bool
  | .external .. => true
  | _ => false

inductive Attaching where
  | called
  | tabled (table : GroupTable)
  | returned (o : Outcome)

/-- How far a pass is that has looked up its buffer. It holds the lock of the cell unless it is
waiting for it. -/
inductive Pass where
  | waiting
  | holding
  | begun (batch : Batch) (space : NamespaceId)
  | finished (result : Except Session.Error Nat)

inductive Highlighting where
  | called
  | passing (e : Entry) (pass : Pass)
  | returned (o : Outcome)

/-- How far a call is that asks the buffer's worker. It holds the lock of the worker's slot from
`serving` to `closing`, and a permit from `admitted` to `parting`. -/
inductive Asking where
  | called
  | found (e : Entry)
  | admitted (e : Entry) (permit : Worker.Permit)
  | serving (e : Entry) (permit : Worker.Permit)
  | passing (e : Entry) (permit : Worker.Permit) (payload : String) (pass : Pass)
  | closing (permit : Worker.Permit) (o : Outcome)
  | parting (permit : Worker.Permit) (o : Outcome)
  | returned (o : Outcome)

inductive Thread : Type 1 where
  | attach (info : BufferInfo) (phase : Attaching)
  | tokens (b : BufferId) (stream : TokenStream) (phase : Highlighting)
  | external (b : BufferId) (content : String) (phase : Asking)

namespace Thread

def start : Call → Thread
  | .attach info => .attach info .called
  | .tokens b stream => .tokens b stream .called
  | .external b content => .external b content .called

def call : Thread → Call
  | .attach info _ => .attach info
  | .tokens b stream _ => .tokens b stream
  | .external b content _ => .external b content

def outcome? : Thread → Option Outcome
  | .attach _ (.returned o) => some o
  | .tokens _ _ (.returned o) => some o
  | .external _ _ (.returned o) => some o
  | _ => none

end Thread

variable (host : Host σ) (i : CallId)

/-- A pass over buffer `b` goes on; `collect` computes its highlights. A pass that is over stays at
its result: its lock is given back by the call it is part of. -/
def Pass.step (s : Store σ) (b : BufferId) (e : Entry)
    (collect : NamespaceId → Batch → Batch × Nat) : Pass → Store σ × Pass
  | .waiting =>
    match s.passLocks.get? e.cell with
    | some _ => (s, .waiting)
    | none => ({ s with passLocks := s.passLocks.set e.cell i }, .holding)
  | .holding =>
    match Session.beginBatch host.logged b (s.spaces.get? e.cell) (s.host, []) with
    | (.error err, h, calls) => (s.told i h calls, .finished (.error (.host err)))
    | (.ok (batch, space), h, calls) =>
      ({ s.told i h calls with spaces := s.spaces.set e.cell space }, .begun batch space)
  | .begun batch space =>
    match (collect space batch).1.flush host.logged (s.host, []) with
    | (.error err, h, calls) => (s.told i h calls, .finished (.error (.host err)))
    | (.ok sent, h, calls) => (s.told i h calls, .finished (.ok sent))
  | .finished result => (s, .finished result)

def Attaching.step (s : Store σ) (info : BufferInfo) : Attaching → Store σ × Attaching
  | .called =>
    match s.session.tableFor info.filetype with
    | none => (s, .returned (.failed (.unknownLanguage info.filetype)))
    | some (table, s') => ({ s with tables := s'.tables }, .tabled table)
  | .tabled table => (s.record info table, .returned .done)
  | .returned o => (s, .returned o)

def Highlighting.step (s : Store σ) (b : BufferId) (t : TokenStream) :
    Highlighting → Store σ × Highlighting
  | .called =>
    match s.buffers.get? b with
    | none => (s, .returned (.failed (.unknownBuffer b)))
    | some e => (s, .passing e .waiting)
  | .passing e (.finished r) =>
    ({ s with passLocks := s.passLocks.erase e.cell }, .returned (.ofSent r))
  | .passing e pass =>
    let (s, pass) := pass.step host i s b e fun space =>
      Classify.into t.frontend e.table b space t.tokens
    (s, .passing e pass)
  | .returned o => (s, .returned o)

/-- The time of the step, and how programs start then, matter to an exchange only. -/
def Asking.step (m : Worker.Moment) (s : Store σ) (b : BufferId) (content : String) :
    Asking → Store σ × Asking
  | .called =>
    match s.workers? with
    | none => (s, .returned (.failed .noWorkerBinary))
    | some _ =>
      match s.buffers.get? b with
      | none => (s, .returned (.failed (.unknownBuffer b)))
      | some e => (s, .found e)
  | .found e =>
    match s.workers? with
    | none => (s, .found e)
    | some p =>
      match p.tryAdmit b with
      | (none, p) => ({ s with workers? := some p }, .returned .dropped)
      | (some permit, p) => ({ s with workers? := some p }, .admitted e permit)
  | .admitted e permit =>
    match s.slotLocks.get? permit.slot with
    | some _ => (s, .admitted e permit)
    | none => ({ s with slotLocks := s.slotLocks.set permit.slot i }, .serving e permit)
  | .serving e permit =>
    match s.workers? with
    | none => (s, .serving e permit)
    | some p =>
      let (x, p) :=
        p.exchange m permit (Target.ofFile b e.info.path e.info.root) (Text.bytes content)
      let s := { s with workers? := some p, log := s.log ++ [.exchanged i x.reply] }
      match x.reply with
      | .error err => (s, .closing permit (.failed (.worker err)))
      | .ok payload => (s, .passing e permit payload .waiting)
  | .passing e permit _ (.finished r) =>
    ({ s with passLocks := s.passLocks.erase e.cell }, .closing permit (.ofSent r))
  | .passing e permit payload pass =>
    let (s, pass) := pass.step host i s b e fun space => Record.into e.table b space payload
    (s, .passing e permit payload pass)
  | .closing permit o => ({ s with slotLocks := s.slotLocks.erase permit.slot }, .parting permit o)
  | .parting permit o => ({ s with workers? := s.workers?.map (·.release permit) }, .returned o)
  | .returned o => (s, .returned o)

def Thread.step (m : Worker.Moment) (s : Store σ) : Thread → Store σ × Thread
  | .attach info phase =>
    let (s, phase) := phase.step s info
    (s, .attach info phase)
  | .tokens b t phase =>
    let (s, phase) := phase.step host i s b t
    (s, .tokens b t phase)
  | .external b content phase =>
    let (s, phase) := phase.step host i m s b content
    (s, .external b content phase)

theorem Highlighting.step_running (s : Store σ) (b : BufferId) (t : TokenStream) (e : Entry)
    {p : Pass} (running : ∀ r, p ≠ .finished r) :
    Highlighting.step host i s b t (.passing e p) =
      let r := p.step host i s b e fun space => Classify.into t.frontend e.table b space t.tokens
      (r.1, .passing e r.2) := by
  cases p with
  | finished r => exact absurd rfl (running r)
  | _ => rfl

theorem Asking.step_running (m : Worker.Moment) (s : Store σ) (b : BufferId) (content : String)
    (e : Entry) (permit : Worker.Permit) (payload : String) {p : Pass}
    (running : ∀ r, p ≠ .finished r) :
    Asking.step host i m s b content (.passing e permit payload p) =
      let r := p.step host i s b e fun space => Record.into e.table b space payload
      (r.1, .passing e permit payload r.2) := by
  cases p with
  | finished r => exact absurd rfl (running r)
  | _ => rfl

structure World (σ : Type) : Type 1 where
  store : Store σ
  threads : CallId → Option Thread

inductive Event : Type 1 where
  | call (i : CallId) (c : Call)
  | step (i : CallId) (m : Worker.Moment)
  /-- Requests are counted before they are admitted, so one may be refused because another that is
  refused too is counted still. -/
  | turnAway (i : CallId)
  | workerDies (b : BufferId)

def Event.On (b : BufferId) : Event → Prop
  | .call _ c => c.buffer = b
  | _ => True

namespace World

def start (settings : Settings) (h : σ) : World σ := ⟨.start settings h, fun _ => none⟩

def put (w : World σ) (i : CallId) (s : Store σ) (t : Thread) : World σ where
  store := s
  threads j := if j = i then some t else w.threads j

@[simp] theorem threads_put (w : World σ) (i : CallId) (s : Store σ) (t : Thread) (j : CallId) :
    (w.put i s t).threads j = if j = i then some t else w.threads j := rfl

def after (w : World σ) : Event → World σ
  | .call i c =>
    match w.threads i with
    | none => w.put i w.store (.start c)
    | some _ => w
  | .step i m =>
    match w.threads i with
    | none => w
    | some t => w.put i (t.step host i m w.store).1 (t.step host i m w.store).2
  | .turnAway i =>
    match w.threads i with
    | some (.external b content (.found _)) =>
      w.put i w.store (.external b content (.returned .dropped))
    | _ => w
  | .workerDies b =>
    { w with store := { w.store with workers? := w.store.workers?.map (·.processDied b) } }

def run (w : World σ) (events : List Event) : World σ := events.foldl (after host) w

def outcome? (w : World σ) (i : CallId) : Option Outcome := (w.threads i).bind Thread.outcome?

def call? (w : World σ) (i : CallId) : Option Call := (w.threads i).map Thread.call

def isExternal (w : World σ) (i : CallId) : Bool := (w.call? i).any Call.isExternal

end World

end Concurrent

end SemanticHighlight
