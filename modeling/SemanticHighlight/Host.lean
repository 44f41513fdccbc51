import SemanticHighlight.Highlight.Batch
import SemanticHighlight.Json.Printer
import SemanticHighlight.Sink

/-!
# Hosts

The editor's side: it hands out namespaces and applies a batch as one unit, and either may fail. The
state of a host is its own. `lineHost` writes each batch as one line of JSON into a sink and hands
out the namespaces 1, 2, 3, … of a signed 64-bit counter.
-/

set_option autoImplicit false

namespace SemanticHighlight

inductive HostError where
  | io (cause : IoError)
  | rejected (text : String)
  deriving DecidableEq, Repr

def HostError.message : HostError → String
  | .io cause => "host transport error: " ++ cause.message
  | .rejected text => "host rejected call: " ++ text

structure Host (σ : Type) where
  createNamespace : BufferId → σ → Except HostError NamespaceId × σ
  callAtomic : List Op → σ → Except HostError Unit × σ

namespace Batch

def flush {σ : Type} (b : Batch) (host : Host σ) (s : σ) : Except HostError Nat × σ :=
  match host.callAtomic b.toList s with
  | (.ok (), s) => (.ok b.size, s)
  | (.error e, s) => (.error e, s)

end Batch

structure LineHost where
  created : Nat := 0
  sink : Sink := {}

namespace LineHost

def namespaceId (n : Nat) : NamespaceId := Int.bmod (n + 1) UInt64.size

def line (ops : List Op) : String :=
  String.ofList ((Json.arr (ops.map Op.call)).compact ++ ['\n'])

def createNamespace (_ : BufferId) (h : LineHost) : Except HostError NamespaceId × LineHost :=
  (.ok (namespaceId h.created), { h with created := h.created + 1 })

def callAtomic (ops : List Op) (h : LineHost) : Except HostError Unit × LineHost :=
  match h.sink.write (Text.bytes (line ops)) with
  | (.error e, sink) => (.error (.io e), { h with sink })
  | (.ok (), sink) =>
    match sink.flush with
    | .error e => (.error (.io e), { h with sink })
    | .ok () => (.ok (), { h with sink })

end LineHost

def lineHost : Host LineHost where
  createNamespace := LineHost.createNamespace
  callAtomic := LineHost.callAtomic

end SemanticHighlight
