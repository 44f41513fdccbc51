import SemanticHighlight.Host
import SemanticHighlight.Text.Quoted
import SemanticHighlight.Worker.Pool

/-!
# Sessions

The buffers that are attached, the workers that read them, and the host they are highlighted in. An
attached buffer has the group table of its file type and, once a pass has asked the host for one, a
namespace. Buffers of one file type share its table, which is built once. Attaching a buffer again
keeps the namespace; detaching it forgets the namespace and stops its worker.
-/

set_option autoImplicit false

namespace SemanticHighlight

structure BufferInfo where
  id : BufferId
  filetype : String
  path : String
  root : String
  deriving DecidableEq, Repr

structure Attachment where
  info : BufferInfo
  table : GroupTable
  space? : Option NamespaceId := none

structure Session (σ : Type) where
  settings : Settings
  workers? : Option Worker.Pool
  tables : Keyed String GroupTable := {}
  buffers : Keyed BufferId Attachment := {}
  host : σ

namespace Session

inductive Error where
  | unknownBuffer (buffer : BufferId)
  | unknownLanguage (filetype : String)
  | noWorkerBinary
  | host (cause : HostError)
  | worker (cause : Worker.Error)
  deriving DecidableEq, Repr

def Error.message : Error → String
  | .unknownBuffer buffer => "buffer " ++ Text.Decimal.intText buffer ++ " is not attached"
  | .unknownLanguage filetype => "no highlight profile for filetype " ++ Text.quoted filetype
  | .noWorkerBinary => "no worker binary configured"
  | .host cause => cause.message
  | .worker cause => cause.message

variable {σ : Type}

def start (settings : Settings) (host : σ) : Session σ where
  settings := settings
  workers? := (WorkerConfig.ofSettings? settings.worker).map fun config => { config }
  host := host

def table? (s : Session σ) (filetype : String) : Option GroupTable :=
  (s.settings.filetypes.get? filetype).map Profile.table

def tableFor (s : Session σ) (filetype : String) : Option (GroupTable × Session σ) :=
  match s.tables.get? filetype with
  | some table => some (table, s)
  | none =>
    (s.table? filetype).map fun table =>
      (table, { s with tables := s.tables.set filetype table })

def attachment? (s : Session σ) (b : BufferId) : Option Attachment := s.buffers.get? b

def attach (s : Session σ) (info : BufferInfo) : Except Error Unit × Session σ :=
  match s.tableFor info.filetype with
  | none => (.error (.unknownLanguage info.filetype), s)
  | some (table, s) =>
    let space? := (s.attachment? info.id).bind Attachment.space?
    (.ok (), { s with buffers := s.buffers.set info.id { info, table, space? } })

def detach (s : Session σ) (b : BufferId) : Option BufferInfo × Session σ :=
  ((s.attachment? b).map Attachment.info,
    { s with buffers := s.buffers.erase b, workers? := s.workers?.map (·.shutdown b) })

def buffer? (s : Session σ) (b : BufferId) : Option BufferInfo :=
  (s.attachment? b).map Attachment.info

def namespace? (s : Session σ) (b : BufferId) : Option NamespaceId :=
  (s.attachment? b).bind Attachment.space?

end Session

end SemanticHighlight
