import SemanticHighlight.IoError
import SemanticHighlight.Json.Printer
import SemanticHighlight.Json.Reader
import SemanticHighlight.Settings.Basic

/-!
# Settings files

Settings as JSON. A record is an object, or an array of its leading fields. A field that is absent
has its default; an unknown member is passed over; a known one that is repeated is an error. Of a
repeated key of a dictionary the last counts. A language is its name, or an object whose one key is
its name.
-/

set_option autoImplicit false

namespace SemanticHighlight

inductive SettingsError where
  | io (cause : IoError)
  | malformed

def SettingsError.message : SettingsError → String
  | .io cause => "settings I/O error: " ++ cause.message
  | .malformed => "invalid settings file"

namespace Json

def fields? (names : List String) : Json → Option (List (Option Json))
  | .obj members =>
    let values (name : String) : List Json :=
      (members.filter (·.1 = some name)).map Prod.snd
    if members.any (·.1 = none) || names.any (fun name => (values name).length > 1) then none
    else some (names.map fun name => (values name).head?)
  | .arr items =>
    if items.length ≤ names.length then
      some (items.map some ++ List.replicate (names.length - items.length) none)
    else none
  | _ => none

def bool? : Json → Option Bool
  | .bool b => some b
  | _ => none

def text? : Json → Option String
  | .str s => s
  | _ => none

def u64? : Json → Option UInt64
  | .int n => if 0 ≤ n ∧ n.toNat < UInt64.size then some (UInt64.ofNat n.toNat) else none
  | _ => none

def optional? {α : Type} (f : Json → Option α) : Json → Option (Option α)
  | .null => some none
  | v => (f v).map some

def list? {α : Type} (f : Json → Option α) : Json → Option (List α)
  | .arr items => items.mapM f
  | _ => none

def member? {α : Type} (f : Json → Option α) : Member → Option (String × α)
  | (some k, v) => (f v).map (k, ·)
  | (none, _) => none

def dictionary? {α : Type} (f : Json → Option α) : Json → Option (Dictionary α)
  | .obj members => (members.mapM (member? f)).map Dictionary.ofList
  | _ => none

def orDefault {α : Type} (d : α) (f : Json → Option α) : Option Json → Option α
  | none => some d
  | some v => f v

end Json

namespace Language

def ofJson? : Json → Option Language
  | .str (some name) => ofName? name
  | .obj [(some name, .null)] => ofName? name
  | _ => none

def toJson (l : Language) : Json := .ofText l.name

end Language

namespace WorkerSettings

def fieldNames : List String :=
  ["binary", "debug", "invoker_name", "read_timeout_ms", "max_in_flight", "pipe_buffer_size"]

def ofJson? (v : Json) : Option WorkerSettings :=
  let d : WorkerSettings := {}
  match v.fields? fieldNames with
  | some [binary, debug, invokerName, readTimeoutMs, maxInFlight, pipeBufferSize] => do
    let binary ← Json.orDefault d.binary (Json.optional? Json.text?) binary
    let debug ← Json.orDefault d.debug Json.bool? debug
    let invokerName ← Json.orDefault d.invokerName Json.text? invokerName
    let readTimeoutMs ← Json.orDefault d.readTimeoutMs Json.u64? readTimeoutMs
    let maxInFlight ← Json.orDefault d.maxInFlight Json.u64? maxInFlight
    let pipeBufferSize ← Json.orDefault d.pipeBufferSize (Json.optional? Json.u64?) pipeBufferSize
    some { binary, debug, invokerName, readTimeoutMs, maxInFlight, pipeBufferSize }
  | _ => none

def toJson (s : WorkerSettings) : Json :=
  .obj ((s.binary.map fun b => (some "binary", Json.ofText b)).toList ++
    [(some "debug", .bool s.debug),
     (some "invoker_name", .ofText s.invokerName),
     (some "read_timeout_ms", .int s.readTimeoutMs.toNat),
     (some "max_in_flight", .int s.maxInFlight.toNat)] ++
    (s.pipeBufferSize.map fun n => (some "pipe_buffer_size", Json.int n.toNat)).toList)

end WorkerSettings

namespace Profile

def fieldNames : List String := ["language", "order", "groups", "ignored"]

def ofJson? (v : Json) : Option Profile :=
  let d : Profile := {}
  match v.fields? fieldNames with
  | some [language, order, groups, ignored] => do
    let language ← Json.orDefault d.language Language.ofJson? language
    let order ← Json.orDefault d.order Json.text? order
    let groups ← Json.orDefault d.groups (Json.dictionary? Json.text?) groups
    let ignored ← Json.orDefault d.ignored (Json.list? Json.text?) ignored
    some { language, order, groups, ignored }
  | _ => none

def toJson (p : Profile) : Json :=
  .obj [
    (some "language", p.language.toJson),
    (some "order", .ofText p.order),
    (some "groups", .obj (p.groups.entries.map fun e => (some e.1, .ofText e.2))),
    (some "ignored", .arr (p.ignored.map Json.ofText))]

end Profile

namespace Settings

def fieldNames : List String := ["worker", "filetypes"]

def ofJson? (v : Json) : Option Settings :=
  match v.fields? fieldNames with
  | some [worker, filetypes] => do
    let worker ← Json.orDefault {} WorkerSettings.ofJson? worker
    let filetypes ← Json.orDefault standardFiletypes (Json.dictionary? Profile.ofJson?) filetypes
    some { worker, filetypes }
  | _ => none

def toJson (s : Settings) : Json :=
  .obj [
    (some "worker", s.worker.toJson),
    (some "filetypes", .obj (s.filetypes.entries.map fun e => (some e.1, e.2.toJson)))]

def read (text : String) : Except SettingsError Settings :=
  match (Json.read? text.toList).bind ofJson? with
  | some s => .ok s
  | none => .error .malformed

def text (s : Settings) : String := String.ofList s.toJson.pretty

end Settings

end SemanticHighlight
