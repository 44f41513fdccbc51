/-!
# Compiler frontends

What a compiler frontend says about a parsed file: the kind and the names of its cursors, which
declaration a reference points at, and the types of its tokens. Cursors and types are the
frontend's own; `Frontend.ofTables` is the frontend whose cursors and types are listed.
-/

set_option autoImplicit false

namespace SemanticHighlight

inductive CursorKind where
  | typedefDecl
  | typeAliasDecl
  | typeAliasTemplateDecl
  | typeRef
  | structDecl
  | unionDecl
  | classDecl
  | enumDecl
  | enumConstantDecl
  | flagEnum
  | fieldDecl
  | memberRef
  | memberRefExpr
  | method
  | constructor
  | destructor
  | conversionFunction
  | functionDecl
  | callExpr
  | functionTemplate
  | classTemplate
  | templateTypeParameter
  | nonTypeTemplateParameter
  | templateRef
  | namespaceDecl
  | namespaceAlias
  | namespaceRef
  | macroDefinition
  | macroExpansion
  | preprocessingDirective
  | declRefExpr
  | overloadedDeclRef
  | parmDecl
  | noDeclFound
  | other
  deriving DecidableEq, Repr

inductive TypeKind where
  | invalid
  | unexposed
  | enumeration
  | functionProto
  | typeAlias
  | record
  | int
  | other
  deriving DecidableEq, Repr

inductive TokenKind where
  | punctuation
  | keyword
  | identifier
  | literal
  | comment
  deriving DecidableEq, Repr

structure Frontend (Cursor Ty : Type) where
  kind : Cursor → CursorKind
  spelling : Cursor → String
  displayName : Cursor → String
  referenced : Cursor → Option Cursor
  typeKind : Ty → TypeKind
  canonicalKind : Ty → TypeKind
  declaration : Ty → Option Cursor

structure Token (Cursor Ty : Type) where
  cursor : Cursor
  type? : Option Ty
  kind : TokenKind
  text : String
  /-- The line in the main file, if the token stands in it. -/
  line? : Option UInt32
  start : UInt32
  stop : UInt32

structure CursorEntry where
  kind : CursorKind
  spelling : String
  displayName : String
  referenced : Option Nat

structure TypeEntry where
  kind : TypeKind
  canonical : TypeKind
  declaration : Option Nat

namespace Frontend

/-- Cursors and types are positions in the tables; a position outside them is of no known kind. -/
def ofTables (cursors : Array CursorEntry) (types : Array TypeEntry) : Frontend Nat Nat where
  kind c := (cursors[c]?.map CursorEntry.kind).getD .other
  spelling c := (cursors[c]?.map CursorEntry.spelling).getD ""
  displayName c := (cursors[c]?.map CursorEntry.displayName).getD ""
  referenced c := cursors[c]?.bind CursorEntry.referenced
  typeKind t := (types[t]?.map TypeEntry.kind).getD .invalid
  canonicalKind t := (types[t]?.map TypeEntry.canonical).getD .invalid
  declaration t := types[t]?.bind TypeEntry.declaration

end Frontend

end SemanticHighlight
