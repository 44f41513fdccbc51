import SemanticHighlight.Highlight.Classify
import SemanticHighlight.Record.Payload

/-!
# Computed highlights

Whatever tokens are classified and whatever a worker replies, the operations computed from it only
add highlights, all of them to the buffer and the namespace that were asked for.
-/

set_option autoImplicit false

namespace SemanticHighlight

namespace Op

def isClear : Op → Bool
  | .add .. => false
  | .clear .. => true

@[simp] theorem buffer_clear (b : BufferId) (space : NamespaceId) (fromLine toLine : Int) :
    (clear b space fromLine toLine).buffer = b := rfl

@[simp] theorem space_clear (b : BufferId) (space : NamespaceId) (fromLine toLine : Int) :
    (clear b space fromLine toLine).space = space := rfl

def AddsTo (b : BufferId) (space : NamespaceId) (op : Op) : Prop :=
  op.isClear = false ∧ op.buffer = b ∧ op.space = space

theorem highlight_adds_to (b : BufferId) (space : NamespaceId) (group : String) (span : Span) :
    (highlight b space group span).AddsTo b space :=
  ⟨rfl, rfl, rfl⟩

end Op

namespace Classify

variable {Cursor Ty : Type}

theorem op_adds_to {table : GroupTable} {b : BufferId} {space : NamespaceId}
    {token : Token Cursor Ty} {result : Option Classification} {op : Op}
    (h : op? table b space token result = some op) : op.AddsTo b space := by
  unfold op? at h
  split at h
  · obtain ⟨group, -, rfl⟩ := Option.map_eq_some_iff.mp h
    exact Op.highlight_adds_to b space group _
  · cases h

variable [DecidableEq Cursor]

theorem ops_from_add_to (f : Frontend Cursor Ty) (table : GroupTable) (b : BufferId)
    (space : NamespaceId) (previous : Option CursorKind) (tokens : List (Token Cursor Ty)) :
    ∀ op ∈ opsFrom f table b space previous tokens, op.AddsTo b space := by
  induction tokens generalizing previous with
  | nil => simp [opsFrom]
  | cons token tokens ih =>
    intro op hop
    rcases List.mem_append.mp hop with h | h
    · exact op_adds_to (Option.mem_toList.mp h)
    · exact ih _ op h

theorem ops_add_to (f : Frontend Cursor Ty) (table : GroupTable) (b : BufferId)
    (space : NamespaceId) (tokens : List (Token Cursor Ty)) :
    ∀ op ∈ ops f table b space tokens, op.AddsTo b space :=
  ops_from_add_to f table b space none tokens

theorem toList_into (f : Frontend Cursor Ty) (table : GroupTable) (b : BufferId)
    (space : NamespaceId) (tokens : List (Token Cursor Ty)) (batch : Batch) :
    (into f table b space tokens batch).1.toList =
      batch.toList ++ ops f table b space tokens :=
  Batch.toList_append batch _

end Classify

namespace Record

theorem op_adds_to {table : GroupTable} {b : BufferId} {space : NamespaceId} {line : String}
    {op : Op} (h : op? table b space line = some op) : op.AddsTo b space := by
  unfold op? at h
  split at h
  · cases h
  · split at h
    · cases h
    · obtain ⟨group, -, rfl⟩ := Option.map_eq_some_iff.mp h
      exact Op.highlight_adds_to b space group _

theorem ops_add_to (table : GroupTable) (b : BufferId) (space : NamespaceId) (payload : String) :
    ∀ op ∈ ops table b space payload, op.AddsTo b space := by
  intro op hop
  obtain ⟨line, -, h⟩ := List.mem_filterMap.mp hop
  exact op_adds_to h

theorem toList_into (table : GroupTable) (b : BufferId) (space : NamespaceId) (payload : String)
    (batch : Batch) :
    (into table b space payload batch).1.toList = batch.toList ++ ops table b space payload :=
  Batch.toList_append batch _

end Record

end SemanticHighlight
