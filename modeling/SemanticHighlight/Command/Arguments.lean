import SemanticHighlight.Text.Utf8

/-!
# Arguments

What the command is asked to do. The arguments are options, each followed by its value, and one
file; an option given again replaces its earlier value. The value of an option may be any text, also
one that looks like an option. The system hands over arguments of any bytes.
-/

set_option autoImplicit false

namespace SemanticHighlight.Command

structure Arguments where
  filetype : String
  settings? : Option String
  worker? : Option String
  root? : Option String
  file : String
  deriving DecidableEq, Repr

inductive UsageError where
  | missingValue (flag : String)
  | unknownOption (argument : String)
  | unexpectedArgument (argument : String)
  | filetypeRequired
  | missingFile
  deriving DecidableEq, Repr

def UsageError.message : UsageError → String
  | .missingValue flag => "missing value for " ++ flag
  | .unknownOption argument => "unknown option " ++ argument
  | .unexpectedArgument argument => "unexpected argument " ++ argument
  | .filetypeRequired => "--filetype is required"
  | .missingFile => "missing input file"

inductive Refusal where
  | usage (cause : UsageError)
  | notText
  deriving DecidableEq, Repr

def Refusal.code : Refusal → Nat
  | .usage _ => 2
  | .notText => 101

inductive Flag where
  | filetype
  | settings
  | worker
  | root
  deriving DecidableEq, Repr

def Flag.ofText? (text : String) : Option Flag :=
  if text = "--filetype" ∨ text = "-f" then some .filetype
  else if text = "--settings" then some .settings
  else if text = "--worker" then some .worker
  else if text = "--root" then some .root
  else none

structure Given where
  filetype? : Option String := none
  settings? : Option String := none
  worker? : Option String := none
  root? : Option String := none
  file? : Option String := none
  deriving DecidableEq, Repr

namespace Given

def set (g : Given) : Flag → String → Given
  | .filetype, v => { g with filetype? := some v }
  | .settings, v => { g with settings? := some v }
  | .worker, v => { g with worker? := some v }
  | .root, v => { g with root? := some v }

def looksLikeOption (argument : String) : Bool := ['-', '-'].isPrefixOf argument.toList

def read (g : Given) : List String → Except UsageError Given
  | [] => .ok g
  | argument :: rest =>
    match Flag.ofText? argument with
    | some flag =>
      match rest with
      | [] => .error (.missingValue argument)
      | value :: rest => (g.set flag value).read rest
    | none =>
      if looksLikeOption argument then .error (.unknownOption argument)
      else if g.file?.isSome then .error (.unexpectedArgument argument)
      else { g with file? := some argument }.read rest

def complete (g : Given) : Except UsageError Arguments :=
  match g.filetype?, g.file? with
  | none, _ => .error .filetypeRequired
  | some _, none => .error .missingFile
  | some filetype, some file => .ok ⟨filetype, g.settings?, g.worker?, g.root?, file⟩

end Given

namespace Arguments

def read (arguments : List String) : Except UsageError Arguments :=
  match ({} : Given).read arguments with
  | .error e => .error e
  | .ok g => g.complete

def texts : List Bytes → List String
  | [] => []
  | argument :: rest =>
    match Text.ofBytes? argument with
    | none => []
    | some text => text :: texts rest

/-- Reads arguments one after the other, so that one that is not text is met only if those before it
are in order. -/
def ofBytes (arguments : List Bytes) : Except Refusal Arguments :=
  let known := texts arguments
  if known.length = arguments.length then (read known).mapError .usage
  else match ({} : Given).read known with
    | .error (.missingValue _) => .error .notText
    | .error e => .error (.usage e)
    | .ok _ => .error .notText

end Arguments

end SemanticHighlight.Command
