import SemanticHighlight.Machine
import SemanticHighlight.Settings.Format

/-!
# Where settings and logs are kept

Both stand in the directory `taghl` of the user's cache directory: the one the environment names, or
`.cache` in the home directory. A settings file that does not exist yet is written with the standard
settings. Logs that cannot be kept there are kept in the directory for temporary files, or not at all.
-/

set_option autoImplicit false

namespace SemanticHighlight.Machine

def cacheDirectory? (m : Machine) : Option String :=
  match (m.env? "XDG_CACHE_HOME").filter (· ≠ "") with
  | some dir => some dir
  | none => (m.env? "HOME").map (Path.join · ".cache")

def appDirectory? (m : Machine) : Option String := m.cacheDirectory?.map (Path.join · "taghl")

def settingsFile? (m : Machine) : Option String := m.appDirectory?.map (Path.join · "settings.json")

def logDirectory? (m : Machine) : Option String := m.appDirectory?.map (Path.join · "logs")

def loadSettings (m : Machine) (path : String) : Except SettingsError Settings :=
  match m.files.readText path m.here with
  | .error e => .error (.io e)
  | .ok text => Settings.read text

def makeDirectories (m : Machine) (path : String) : Except IoError Unit × Machine :=
  let (r, files) := m.files.makeDirectories path m.here
  (r, { m with files })

/-- Writes the standard settings to a path where nothing is. -/
def writeStandardSettings (m : Machine) (path : String) : Except IoError Unit × Machine :=
  let made : Except IoError Unit × Machine :=
    match Path.parent? path with
    | some dir => if m.files.exists? dir m.here then (.ok (), m) else m.makeDirectories dir
    | none => (.ok (), m)
  match made with
  | (.error e, m) => (.error e, m)
  | (.ok (), m) =>
    if m.files.exists? path m.here then (.ok (), m)
    else
      let (r, files) := m.files.writeFile path (Text.bytes Settings.standard.text) m.here
      (r, { m with files })

def ensureSettings (m : Machine) : Except IoError String × Machine :=
  match m.settingsFile? with
  | none => (.error .noSettingsDirectory, m)
  | some path =>
    match m.writeStandardSettings path with
    | (.error e, m) => (.error e, m)
    | (.ok (), m) => (.ok path, m)

def ensureLogs (m : Machine) : Except IoError String × Machine :=
  match m.logDirectory? with
  | none => (.error .noLogDirectory, m)
  | some dir =>
    if m.files.exists? dir m.here then (.ok dir, m)
    else match m.makeDirectories dir with
      | (.error e, m) => (.error e, m)
      | (.ok (), m) => (.ok dir, m)

def temporaryDirectory (m : Machine) : String := (m.env? "TMPDIR").getD "/tmp"

/-- The directory that logs are to be written to, if there can be one. -/
def findLogs (m : Machine) : Option String × Machine :=
  match m.ensureLogs with
  | (.ok dir, m) => (some dir, m)
  | (.error _, m) =>
    let dir := Path.join (Path.join m.temporaryDirectory "taghl") "logs"
    match m.makeDirectories dir with
    | (.ok (), m) => (some dir, m)
    | (.error _, m) => (none, m)

inductive Logs where
  | off
  | kept (directory : String)
  /-- What was found cannot have a log file in it. -/
  | unusable
  deriving DecidableEq, Repr

def logFile : String := "taghl.log.0000-00-00"

/-- Logs themselves are not kept in the file tree. -/
def openLogs (m : Machine) : Logs × Machine :=
  match m.findLogs with
  | (none, m) => (.off, m)
  | (some dir, m) =>
    match (m.files.appendFile (Path.join dir logFile) [] m.here).1 with
    | .ok () => (.kept dir, m)
    | .error _ => (.unusable, m)

end SemanticHighlight.Machine
