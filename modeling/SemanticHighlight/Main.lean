import SemanticHighlight.Command.Run
import SemanticHighlight.Tokenizer.Worker

/-!
# The command line

Looks at the files a run may read, runs the command on them, and writes what it left behind. No
process is started: the worker that can be run is the tokenizer, under the path of any file that has
its name.
-/

set_option autoImplicit false

namespace SemanticHighlight.CommandLine

def tokenizerName : String := "taghl_worker_stub"

def environmentNames : List String := [
  "XDG_CACHE_HOME", "HOME", "TMPDIR", "PATH",
  "TAGHL_STUB_DELAY_MS", "TAGHL_STUB_EXIT_AFTER", "TAGHL_STUB_TRUNCATE", "TAGHL_STUB_TRACE_PATH"]

/-- Devices, which are never looked at. -/
def devices : List (Location × Device) := [
  (["dev", "null"], .void), (["dev", "stdout"], .output), (["dev", "stderr"], .diagnostics)]

def look (path : String) : IO (Option FileEntry) := do
  try
    return some (.file (← IO.FS.readBinFile path).data.toList)
  catch
    | .inappropriateType .. => return some .directory
    | .permissionDenied .. => return some (.file [])
    | _ => return none

def located (l : Location) : String := "/" ++ String.intercalate "/" l

def withEntries (m : Machine) (path : String) : IO Machine := do
  let mut m := m
  let mut l := FileTree.origin path m.here
  for name in Path.names path do
    if name = ".." then
      l := l.dropLast
    else if name ≠ "." then
      l := l ++ [name]
      if (m.files.find? l).isNone then
        if let some entry ← look (located l) then
          m := { m with files := m.files.put l entry }
  return m

def readPaths (m : Machine) (arguments : List String) : List String :=
  let given :=
    match Command.Arguments.read arguments with
    | .ok a => a.file :: a.settings?.toList
    | .error _ => []
  given ++ m.settingsFile?.toList ++ m.logDirectory?.toList ++
    [Path.join m.temporaryDirectory "taghl/logs"] ++ (m.env? "TAGHL_STUB_TRACE_PATH").toList

def programPaths (m : Machine) (program : String) : List String :=
  if '/' ∈ program.toList then [program] else m.searchPath.map (Machine.programPath · program)

def withWorker (m : Machine) (arguments : List String) : IO Machine := do
  match Command.Arguments.read arguments with
  | .error _ => return m
  | .ok a =>
    let mut m := m
    for path in ((Command.resolveSettings m a).1.worker.binary.map (programPaths m)).getD [] do
      m ← withEntries m path
      if let .ok l := m.files.locate path m.here then
        if let some (.file _) := m.files.find? l then
          if l.getLast? = some tokenizerName then
            m := { m with files := m.files.put l (.program (Tokenizer.program (.ofMachine m))) }
    return m

/-- Makes the directories and writes the files that were not there before or have changed. -/
def keep (before after : Machine) : IO Unit := do
  for (l, entry) in after.files.entries.entries.reverse do
    match before.files.find? l, entry with
    | none, .directory => IO.FS.createDirAll (located l)
    | none, .file content => IO.FS.writeBinFile (located l) ⟨content.toArray⟩
    | some (.file old), .file content =>
      if old ≠ content then IO.FS.writeBinFile (located l) ⟨content.toArray⟩
    | _, _ => pure ()

def machine (arguments : List String) : IO Machine := do
  let mut environment : Keyed String String := {}
  for name in environmentNames do
    if let some value ← IO.getEnv name then
      environment := environment.set name value
  let directory := (← IO.currentDir).toString
  let files := devices.foldl (fun t (d : Location × Device) => t.put d.1 (.device d.2)) {}
  let mut m : Machine := { files, directory, environment }
  for path in directory :: readPaths m arguments do
    m ← withEntries m path
  withWorker m arguments

def run (arguments : List String) : IO UInt32 := do
  let m ← machine arguments
  match Command.run m (arguments.map Text.bytes) with
  | none =>
    repeat
      IO.sleep 1000
    return 0
  | some r =>
    keep m r.machine
    (← IO.getStdout).write ⟨r.output.toArray⟩
    IO.eprint r.diagnostics
    return UInt32.ofNat r.code

end SemanticHighlight.CommandLine

def main (arguments : List String) : IO UInt32 := SemanticHighlight.CommandLine.run arguments
