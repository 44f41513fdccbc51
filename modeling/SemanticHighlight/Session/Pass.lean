import SemanticHighlight.Highlight.Classify
import SemanticHighlight.Record.Payload
import SemanticHighlight.Session.Basic

/-!
# Highlight passes

A pass collects the highlights of a buffer in one batch and gives it to the host. The first pass
asks the host for a namespace; each later one begins its batch by clearing the namespace. The
highlights come from a frontend's tokens or from the reply of the buffer's worker.
-/

set_option autoImplicit false

namespace SemanticHighlight.Session

variable {σ : Type}

def beginBatch (host : Host σ) (b : BufferId) (space? : Option NamespaceId) (h : σ) :
    Except HostError (Batch × NamespaceId) × σ :=
  match space? with
  | some space => (.ok (Batch.empty.push (.clearAll b space), space), h)
  | none =>
    match host.createNamespace b h with
    | (.error e, h) => (.error e, h)
    | (.ok space, h) => (.ok (Batch.empty, space), h)

def pass (host : Host σ) (s : Session σ) (b : BufferId) (a : Attachment)
    (collect : NamespaceId → Batch → Batch × Nat) : Except Error Nat × Session σ :=
  match beginBatch host b a.space? s.host with
  | (.error e, h) => (.error (.host e), { s with host := h })
  | (.ok (batch, space), h) =>
    let buffers := s.buffers.set b { a with space? := some space }
    match (collect space batch).1.flush host h with
    | (.error e, h) => (.error (.host e), { s with buffers, host := h })
    | (.ok sent, h) => (.ok sent, { s with buffers, host := h })

def highlightTokens {Cursor Ty : Type} [DecidableEq Cursor] (host : Host σ) (s : Session σ)
    (b : BufferId) (f : Frontend Cursor Ty) (tokens : List (Token Cursor Ty)) :
    Except Error Nat × Session σ :=
  match s.attachment? b with
  | none => (.error (.unknownBuffer b), s)
  | some a => s.pass host b a fun space => Classify.into f a.table b space tokens

inductive External where
  | flushed (sent : Nat)
  | dropped
  deriving DecidableEq, Repr

structure ExternalPass (σ : Type) where
  result : Except Error External
  session : Session σ
  finished : Instant
  additions : List Addition := []

def highlightExternal (host : Host σ) (s : Session σ) (m : Worker.Moment) (b : BufferId)
    (content : String) : ExternalPass σ :=
  match s.workers? with
  | none => { result := .error .noWorkerBinary, session := s, finished := m.now }
  | some workers =>
    match s.attachment? b with
    | none => { result := .error (.unknownBuffer b), session := s, finished := m.now }
    | some a =>
      let target := Target.ofFile b a.info.path a.info.root
      let i := workers.invoke m target (Text.bytes content)
      let s := { s with workers? := some i.pool }
      match i.reply with
      | .error e => ⟨.error (.worker e), s, i.finished, i.additions⟩
      | .ok none => ⟨.ok .dropped, s, i.finished, i.additions⟩
      | .ok (some payload) =>
        let (sent, s) := s.pass host b a fun space => Record.into a.table b space payload
        ⟨sent.map .flushed, s, i.finished, i.additions⟩

/-- The pass does not end while the worker lives: its request is being written. -/
def externalStalls (s : Session σ) (m : Worker.Moment) (b : BufferId) (content : String) : Bool :=
  match s.workers?, s.attachment? b with
  | some workers, some a =>
    workers.invokeStalls m (Target.ofFile b a.info.path a.info.root) (Text.bytes content)
  | _, _ => false

end SemanticHighlight.Session
