import SemanticHighlight.Highlight.Op

/-!
# Batches

The operations of one pass, in order. Room for them is reserved ahead: before the last reserved slot
is used, as many slots as are reserved are added to the operations held.
-/

set_option autoImplicit false

namespace SemanticHighlight

structure Batch where
  ops : Array Op
  capacity : Nat

namespace Batch

def initialCapacity : Nat := 128

def empty : Batch := ⟨#[], initialCapacity⟩

def size (b : Batch) : Nat := b.ops.size

def toList (b : Batch) : List Op := b.ops.toList

def push (b : Batch) (op : Op) : Batch where
  ops := b.ops.push op
  capacity :=
    let reserved := max b.capacity 1
    if b.size ≥ reserved - 1 then b.size + reserved else b.capacity

def append (b : Batch) (ops : List Op) : Batch := ops.foldl push b

def last? (b : Batch) : Option Op := b.ops.back?

def calls (b : Batch) : Json := .arr (b.toList.map Op.call)

@[simp] theorem toList_empty : empty.toList = [] := rfl

@[simp] theorem toList_push (b : Batch) (op : Op) : (b.push op).toList = b.toList ++ [op] := by
  simp [push, toList]

@[simp] theorem toList_append (b : Batch) (ops : List Op) :
    (b.append ops).toList = b.toList ++ ops := by
  induction ops generalizing b with
  | nil => simp [append]
  | cons op ops ih => simpa [append] using ih (b.push op)

end Batch

end SemanticHighlight
