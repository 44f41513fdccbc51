import SemanticHighlight.Highlight.Batch
import SemanticHighlight.Highlight.Frontend
import SemanticHighlight.Highlight.GroupTable

/-!
# Classifying tokens

The tag of a token, from the cursor the frontend gives it. A reference to a type is followed to its
declaration, at most twice, unless the language is the base language. A macro definition counts only
right after a preprocessing directive, so the kind of the last token that was looked at is kept.
-/

set_option autoImplicit false

namespace SemanticHighlight

structure Classification where
  tag? : Option Tag
  /-- The kind of the cursor that was decided on. -/
  resolved : CursorKind
  deriving DecidableEq, Repr

namespace Classify

variable {Cursor Ty : Type} [DecidableEq Cursor]

def maxHops : Nat := 2

/-- A cursor next to a declaration is the declaration's, so the token has to spell its name. -/
def spells (f : Frontend Cursor Ty) (token : Token Cursor Ty) (c : Cursor) : Bool :=
  f.spelling c = token.text ||
    ((token.type?.bind f.declaration).any fun d => f.displayName d = token.text)

def hop? (f : Frontend Cursor Ty) (c : Cursor) : Option Cursor :=
  (f.referenced c).filter fun d => d ≠ c && f.kind d ≠ .noDeclFound

inductive Finding (Cursor : Type) where
  | tag (tag? : Option Tag)
  | follow (next : Cursor)

def look (f : Frontend Cursor Ty) (base : Bool) (previous : Option CursorKind)
    (token : Token Cursor Ty) (mayFollow : Bool) (c : Cursor) : Finding Cursor :=
  match f.kind c with
  | .typedefDecl | .typeAliasDecl | .typeAliasTemplateDecl => .tag (some .types)
  | .typeRef =>
    if !base && mayFollow then
      match hop? f c with
      | some d => .follow d
      | none => .tag (some .types)
    else .tag (some .types)
  | .structDecl => .tag (some .structs)
  | .unionDecl => .tag (some .unions)
  | .classDecl => .tag (if spells f token c then some .classes else none)
  | .enumDecl => .tag (some .enums)
  | .enumConstantDecl | .flagEnum => .tag (some .enumConstants)
  | .fieldDecl | .memberRef => .tag (some .members)
  | .memberRefExpr =>
    if !base && token.type?.any (fun t => f.canonicalKind t = .unexposed) then
      .tag (some .methods)
    else .tag (some .members)
  | .method | .constructor | .destructor | .conversionFunction => .tag (some .methods)
  | .functionDecl | .callExpr | .functionTemplate => .tag (some .functions)
  | .classTemplate => .tag (some .classes)
  | .templateTypeParameter => .tag (some .types)
  | .nonTypeTemplateParameter => .tag none
  | .templateRef => .tag (some .templates)
  | .namespaceDecl => .tag (if spells f token c then some .namespaces else none)
  | .namespaceAlias | .namespaceRef => .tag (some .namespaces)
  | .macroDefinition =>
    .tag (if previous = some .preprocessingDirective then some .directives else none)
  | .macroExpansion => .tag (some .directives)
  | .declRefExpr =>
    match token.type?.map f.typeKind with
    | some .enumeration => .tag (some .enumConstants)
    | some .functionProto =>
      .tag (if token.kind = .punctuation then some .operators else some .functions)
    | _ => .tag none
  | .preprocessingDirective | .overloadedDeclRef | .parmDecl | .noDeclFound | .other => .tag none

/-- The cursor that is decided on, after `hops` more references at most, and its tag. -/
def decideOn (f : Frontend Cursor Ty) (base : Bool) (previous : Option CursorKind)
    (token : Token Cursor Ty) (hops : Nat) (c : Cursor) : Cursor × Option Tag :=
  match hops with
  | 0 =>
    match look f base previous token false c with
    | .tag t => (c, t)
    | .follow _ => (c, none)
  | hops + 1 =>
    match look f base previous token true c with
    | .tag t => (c, t)
    | .follow d => decideOn f base previous token hops d

/-- None if the token is not looked at: it stands in another file or is ignored. -/
def classify (f : Frontend Cursor Ty) (table : GroupTable) (previous : Option CursorKind)
    (token : Token Cursor Ty) : Option Classification :=
  if token.line?.isNone || table.isIgnored token.text then none
  else
    let (c, t) := decideOn f table.language.isBase previous token maxHops token.cursor
    some ⟨t, f.kind c⟩

def kept (previous : Option CursorKind) : Option Classification → Option CursorKind
  | some r => some r.resolved
  | none => previous

def op? (table : GroupTable) (buffer : BufferId) (space : NamespaceId) (token : Token Cursor Ty)
    (result : Option Classification) : Option Op :=
  match result.bind Classification.tag?, token.line? with
  | some tag, some line =>
    (table.group? tag).map fun group =>
      .highlight buffer space group ⟨line, token.start, token.stop⟩
  | _, _ => none

def opsFrom (f : Frontend Cursor Ty) (table : GroupTable) (buffer : BufferId)
    (space : NamespaceId) : Option CursorKind → List (Token Cursor Ty) → List Op
  | _, [] => []
  | previous, token :: tokens =>
    let result := classify f table previous token
    (op? table buffer space token result).toList ++
      opsFrom f table buffer space (kept previous result) tokens

def ops (f : Frontend Cursor Ty) (table : GroupTable) (buffer : BufferId) (space : NamespaceId)
    (tokens : List (Token Cursor Ty)) : List Op :=
  opsFrom f table buffer space none tokens

def into (f : Frontend Cursor Ty) (table : GroupTable) (buffer : BufferId) (space : NamespaceId)
    (tokens : List (Token Cursor Ty)) (batch : Batch) : Batch × Nat :=
  let added := ops f table buffer space tokens
  (batch.append added, added.length)

/-- The results of one classifier on a token list, each with the kind kept after it. -/
def trace (f : Frontend Cursor Ty) (table : GroupTable) :
    Option CursorKind → List (Token Cursor Ty) → List (Option Classification × Option CursorKind)
  | _, [] => []
  | previous, token :: tokens =>
    let result := classify f table previous token
    (result, kept previous result) :: trace f table (kept previous result) tokens

end Classify

end SemanticHighlight
