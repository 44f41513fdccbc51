import SemanticHighlight.Dictionary
import SemanticHighlight.Duration
import SemanticHighlight.Highlight.GroupTable

/-!
# Settings

How workers are run and which identifiers are highlighted in files of which type. What a settings
file leaves out has a default.
-/

set_option autoImplicit false

namespace SemanticHighlight

structure WorkerSettings where
  binary : Option String := none
  debug : Bool := false
  invokerName : String := "taghl"
  readTimeoutMs : UInt64 := 5000
  maxInFlight : UInt64 := 5
  pipeBufferSize : Option UInt64 := none

/-- The settings of a file type. The keys of `groups` that are one character long are tags. -/
structure Profile where
  language : Language := .c
  order : String := ""
  groups : Dictionary String := {}
  ignored : List String := []

namespace Profile

def standardGroups : List (Tag × String) := [
  (.classes, "TagHighlightClass"),
  (.directives, "TagHighlightPreProc"),
  (.enumConstants, "TagHighlightEnumConstant"),
  (.functions, "TagHighlightFunction"),
  (.enums, "TagHighlightEnum"),
  (.members, "TagHighlightMember"),
  (.namespaces, "TagHighlightNamespace"),
  (.packages, "TagHighlightPackage"),
  (.structs, "TagHighlightStruct"),
  (.types, "TagHighlightType"),
  (.unions, "TagHighlightUnion"),
  (.globals, "TagHighlightGlobalVar"),
  (.methods, "TagHighlightMethod"),
  (.operators, "TagHighlightOverloadedOperator"),
  (.templates, "TagHighlightTemplate")]

def standard (language : Language) (order : String) (ignored : List String) : Profile where
  language := language
  order := order
  groups := Dictionary.ofList
    ((standardGroups.filter fun g => g.1.letter ∈ order.toList).map fun g =>
      (g.1.letter.toString, g.2))
  ignored := ignored

def singleLetter? (key : String) : Option Tag :=
  match key.toList with
  | [c] => some ⟨c⟩
  | _ => none

def table (p : Profile) : GroupTable :=
  GroupTable.build p.language p.order
    (p.groups.entries.filterMap fun e => (singleLetter? e.1).map (·, e.2))
    (IgnoreList.ofList p.ignored)

end Profile

structure Settings where
  worker : WorkerSettings
  filetypes : Dictionary Profile

namespace Settings

def standardFiletypes : Dictionary Profile := Dictionary.ofList [
  ("c", .standard .c "defgmstu" ["NULL", "bool", "true", "false"]),
  ("cpp", .standard .cpp "cdefgmnstuMOT" ["NULL", "nullptr", "std"]),
  ("go", .standard .go "cefmnpstv" ["nil", "true", "false", "iota"])]

def standard : Settings := ⟨{}, standardFiletypes⟩

instance : Inhabited Settings := ⟨standard⟩

end Settings

structure WorkerConfig where
  binary : String
  invokerName : String
  debug : Bool
  readTimeout : Duration
  maxInFlight : Nat
  pipeBufferSize : Option Nat

namespace WorkerConfig

/-- No time at all would pass before the first answer; it stands for the default. -/
def timeout (ms : UInt64) : Duration :=
  Duration.ofMillis (if ms = 0 then ({} : WorkerSettings).readTimeoutMs else ms).toNat

def ofSettings? (s : WorkerSettings) : Option WorkerConfig :=
  s.binary.map fun binary =>
    { binary
      invokerName := s.invokerName
      debug := s.debug
      readTimeout := timeout s.readTimeoutMs
      maxInFlight := max s.maxInFlight.toNat 1
      pipeBufferSize := s.pipeBufferSize.map UInt64.toNat }

end WorkerConfig

end SemanticHighlight
