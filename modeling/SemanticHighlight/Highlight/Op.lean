import SemanticHighlight.Json.Basic

/-!
# Highlight operations

What the editor is asked to do: add a highlight on one line of a buffer, or clear the highlights of
a range of lines, both in one namespace of the buffer. An operation is sent as the name of the
editor's method and its arguments.
-/

set_option autoImplicit false

namespace SemanticHighlight

abbrev BufferId := Int

abbrev NamespaceId := Int

structure Span where
  line : UInt32
  start : UInt32
  stop : UInt32
  deriving DecidableEq, Repr

inductive Op where
  | add (buffer : BufferId) (space : NamespaceId) (group : String) (line start stop : Int)
  | clear (buffer : BufferId) (space : NamespaceId) (fromLine toLine : Int)
  deriving DecidableEq, Repr

namespace Op

def highlight (buffer : BufferId) (space : NamespaceId) (group : String) (span : Span) : Op :=
  .add buffer space group span.line.toNat span.start.toNat span.stop.toNat

/-- The line number that stands for the end of the buffer. -/
def lastLine : Int := -1

def clearAll (buffer : BufferId) (space : NamespaceId) : Op := .clear buffer space 0 lastLine

def buffer : Op → BufferId
  | .add b .. => b
  | .clear b .. => b

def space : Op → NamespaceId
  | .add _ s .. => s
  | .clear _ s .. => s

def method : Op → String
  | .add .. => "nvim_buf_add_highlight"
  | .clear .. => "nvim_buf_clear_highlight"

def arguments : Op → List Json
  | .add b s group line start stop =>
    [.int b, .int s, .ofText group, .int line, .int start, .int stop]
  | .clear b s fromLine toLine => [.int b, .int s, .int fromLine, .int toLine]

def call (op : Op) : Json := .arr [.ofText op.method, .arr op.arguments]

end Op

end SemanticHighlight
