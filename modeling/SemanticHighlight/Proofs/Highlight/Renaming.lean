import SemanticHighlight.Highlight.Classify
import SemanticHighlight.Record.Payload

/-!
# Renamed namespaces

Highlights are computed for a namespace without looking at it, so another namespace gives the same
highlights under another name.
-/

set_option autoImplicit false

namespace SemanticHighlight

variable {ρ : NamespaceId → NamespaceId}

namespace Op

def rename (ρ : NamespaceId → NamespaceId) : Op → Op
  | .add b space group line start stop => .add b (ρ space) group line start stop
  | .clear b space fromLine toLine => .clear b (ρ space) fromLine toLine

theorem rename_rename (ρ ρ' : NamespaceId → NamespaceId) (op : Op) :
    (op.rename ρ').rename ρ = op.rename (ρ ∘ ρ') := by
  cases op <;> rfl

end Op

namespace Classify

variable {Cursor Ty : Type}

theorem op_rename (table : GroupTable) (b : BufferId) (space : NamespaceId)
    (token : Token Cursor Ty) (result : Option Classification) :
    op? table b (ρ space) token result = (op? table b space token result).map (Op.rename ρ) := by
  unfold op?
  split
  · rw [Option.map_map]
    rfl
  · rfl

variable [DecidableEq Cursor]

theorem opsFrom_rename (f : Frontend Cursor Ty) (table : GroupTable) (b : BufferId)
    (space : NamespaceId) (previous : Option CursorKind) (tokens : List (Token Cursor Ty)) :
    opsFrom f table b (ρ space) previous tokens =
      (opsFrom f table b space previous tokens).map (Op.rename ρ) := by
  induction tokens generalizing previous with
  | nil => rfl
  | cons token tokens ih =>
    simp only [opsFrom, op_rename, ih, Option.toList_map, List.map_append]

theorem ops_rename (f : Frontend Cursor Ty) (table : GroupTable) (b : BufferId)
    (space : NamespaceId) (tokens : List (Token Cursor Ty)) :
    ops f table b (ρ space) tokens = (ops f table b space tokens).map (Op.rename ρ) :=
  opsFrom_rename f table b space none tokens

end Classify

namespace Record

theorem op_rename (table : GroupTable) (b : BufferId) (space : NamespaceId) (line : String) :
    op? table b (ρ space) line = (op? table b space line).map (Op.rename ρ) := by
  unfold op?
  split
  · rfl
  · split
    · rfl
    · rw [Option.map_map]
      rfl

theorem ops_rename (table : GroupTable) (b : BufferId) (space : NamespaceId) (payload : String) :
    ops table b (ρ space) payload = (ops table b space payload).map (Op.rename ρ) := by
  rw [ops, ops, List.map_filterMap]
  congr 1
  funext line
  exact op_rename table b space line

end Record

end SemanticHighlight
