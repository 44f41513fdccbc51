import SemanticHighlight.Command.Arguments
import SemanticHighlight.Session.Pass
import SemanticHighlight.Settings.Location

/-!
# The command

One run highlights one file: its text goes to a worker, and the calls the editor would get are
written as one line. The result says what was written, with which code the command ended, and what
it left behind in the file tree. A run need not end.
-/

set_option autoImplicit false

namespace SemanticHighlight.Command

def usage : String :=
  "usage: taghl --filetype <ft> [--settings <file>] [--worker <binary>] [--root <dir>] <file>"

inductive Error where
  | unreadable (path : String) (cause : IoError)
  | session (cause : Session.Error)
  | dropped
  deriving DecidableEq, Repr

def Error.message : Error → String
  | .unreadable path cause => "cannot read " ++ path ++ ": " ++ cause.message
  | .session cause => cause.message
  | .dropped => "highlight request dropped"

def settingsPath (m : Machine) (a : Arguments) : Option String × Machine :=
  match a.settings? with
  | some path => (some path, m)
  | none =>
    match m.ensureSettings with
    | (.ok path, m) => (some path, m)
    | (.error _, m) => (none, m)

/-- Settings that cannot be read are the standard ones; a worker that is named replaces theirs. -/
def resolveSettings (m : Machine) (a : Arguments) : Settings × Machine :=
  let (path?, m) := settingsPath m a
  let settings :=
    match path? with
    | none => Settings.standard
    | some path => (m.loadSettings path).toOption.getD Settings.standard
  match a.worker? with
  | none => (settings, m)
  | some worker => ({ settings with worker := { settings.worker with binary := some worker } }, m)

def buffer : BufferId := 1

def bufferInfo (m : Machine) (a : Arguments) : BufferInfo :=
  let path := Path.join m.directory a.file
  { id := buffer
    filetype := a.filetype
    path
    root :=
      match a.root? with
      | some root => Path.join m.directory root
      | none => (Path.parent? path).getD "" }

structure Highlighted where
  result : Except Error Unit
  output : Bytes := []
  additions : List Addition := []

/-- Highlights the file. There is no result if the pass does not end before the worker does: nobody
else ends the worker of a command that waits for it. -/
def highlight (m : Machine) (settings : Settings) (a : Arguments) : Option Highlighted :=
  let info := bufferInfo m a
  match m.files.readText info.path m.here with
  | .error e => some { result := .error (.unreadable info.path e) }
  | .ok content =>
    match (Session.start settings ({} : LineHost)).attach info with
    | (.error e, _) => some { result := .error (.session e) }
    | (.ok (), s) =>
      if s.externalStalls ⟨0, m.launch⟩ buffer content then none
      else
        let p := s.highlightExternal lineHost ⟨0, m.launch⟩ buffer content
        let result :=
          match p.result with
          | .ok (.flushed _) => .ok ()
          | .ok .dropped => .error .dropped
          | .error e => .error (.session e)
        some ⟨result, p.session.host.sink.written, p.additions⟩

structure Finished where
  code : Nat
  output : Bytes := []
  diagnostics : String := ""
  machine : Machine

def complaint (text : String) : String := "taghl: " ++ text ++ "\n"

/-- What is said about arguments. Where the command breaks down the words are not its own, and are
not part of the result. -/
def Refusal.text : Refusal → String
  | .usage e => complaint e.message ++ Command.usage ++ "\n"
  | .notText => ""

def conclude (logs : Machine.Logs) (m : Machine) (h : Highlighted) : Finished :=
  let m := h.additions.foldl Machine.add m
  match h.result with
  | .ok () => { code := 0, output := h.output, machine := m }
  | .error e =>
    let note :=
      match logs with
      | .kept dir => complaint ("logs in " ++ dir)
      | _ => ""
    { code := 1, output := h.output, diagnostics := complaint e.message ++ note, machine := m }

/-- A run of the command, if it ends. -/
def run (m : Machine) (arguments : List Bytes) : Option Finished :=
  let (logs, m) := m.openLogs
  if logs = .unusable then some { code := 101, machine := m }
  else match Arguments.ofBytes arguments with
    | .error refusal => some { code := refusal.code, diagnostics := refusal.text, machine := m }
    | .ok a =>
      let (settings, m) := resolveSettings m a
      (highlight m settings a).map (conclude logs m)

end SemanticHighlight.Command
