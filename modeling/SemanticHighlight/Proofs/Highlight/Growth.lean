import Mathlib.Algebra.Group.Nat.Defs
import SemanticHighlight.Proofs.Session.Calls

/-!
# How a batch grows

The capacity of a batch is one more than `127 * 2 ^ k`, and goes on to the next such number before
its last slot is used. So there is always room for one operation more, and what was pushed is there,
in order, when the batch is flushed.
-/

set_option autoImplicit false

namespace SemanticHighlight.Batch

/-- The capacity is the least of its kind that leaves a slot free beside `n` operations. -/
def Spacious (n capacity : Nat) : Prop :=
  ∃ k, (n ≤ 127 * 2 ^ k ∧ ∀ j, n ≤ 127 * 2 ^ j → k ≤ j) ∧ capacity = 127 * 2 ^ k + 1

theorem spacious_empty : Spacious empty.size empty.capacity :=
  ⟨0, ⟨Nat.zero_le _, fun k _ => Nat.zero_le k⟩, rfl⟩

theorem Spacious.lt {n capacity : Nat} (h : Spacious n capacity) : n < capacity := by
  obtain ⟨k, ⟨enough, -⟩, rfl⟩ := h
  exact Nat.lt_succ_of_le enough

@[simp] theorem size_push (b : Batch) (op : Op) : (b.push op).size = b.size + 1 := by
  simp [push, size]

theorem Spacious.push {b : Batch} (h : Spacious b.size b.capacity) (op : Op) :
    Spacious (b.push op).size (b.push op).capacity := by
  obtain ⟨k, ⟨enough, least⟩, capacity⟩ := h
  have grown : (b.push op).capacity =
      if b.size = 127 * 2 ^ k then 127 * 2 ^ (k + 1) + 1 else 127 * 2 ^ k + 1 := by
    simp only [Batch.push, capacity, Nat.pow_succ]
    split <;> split <;> omega
  rw [grown, size_push]
  by_cases last : b.size = 127 * 2 ^ k
  · -- only the reserved slot is left: no power up to this one suffices any more, the next one does
    rw [if_pos last]
    refine ⟨k + 1, ⟨?_, fun j hj => ?_⟩, rfl⟩
    · have positive : 0 < 2 ^ k := Nat.two_pow_pos k
      rw [Nat.pow_succ]
      omega
    · have more : 2 ^ k < 2 ^ j := by omega
      exact (Nat.pow_lt_pow_iff_right (by decide)).mp more
  · rw [if_neg last]
    exact ⟨k, ⟨by omega, fun j hj => least j (Nat.le_of_succ_le hj)⟩, rfl⟩

theorem Spacious.append {b : Batch} (h : Spacious b.size b.capacity) (ops : List Op) :
    Spacious (b.append ops).size (b.append ops).capacity := by
  induction ops generalizing b with
  | nil => exact h
  | cons op ops ih => exact ih (h.push op)

theorem flush_eq_call {σ : Type} (b : Batch) (host : Host σ) (s : σ) :
    b.flush host s =
      ((host.callAtomic b.toList s).1.map fun _ => b.size, (host.callAtomic b.toList s).2) := by
  unfold flush
  rcases host.callAtomic b.toList s with ⟨r, s'⟩
  cases r <;> rfl

/-- A new batch holds what is pushed, in order, with a capacity of `127 * 2 ^ k + 1` for the least
`k` that leaves its last slot free; the next operation finds its slot reserved before it is pushed.
The host gets the whole batch in one call, and its answer is that of the flush, with the number of
operations. -/
theorem pushed_then_flushed (ops : List Op) :
    let b := empty.append ops
    b.toList = ops ∧ b.size = ops.length ∧
    (∃ k, (ops.length ≤ 127 * 2 ^ k ∧ ∀ j, ops.length ≤ 127 * 2 ^ j → k ≤ j) ∧
      b.capacity = 127 * 2 ^ k + 1) ∧
    b.size < b.capacity ∧ (∀ op, b.size + 1 < (b.push op).capacity) ∧
    ∀ {σ : Type} (host : Host σ) (s : σ),
      b.flush host s =
        ((host.callAtomic ops s).1.map fun _ => ops.length, (host.callAtomic ops s).2) ∧
      (b.flush host.logged (s, [])).2.2 = [.batch ops (host.callAtomic ops s).1] := by
  intro b
  have held : b.toList = ops := toList_append empty ops
  have size : b.size = ops.length := by
    rw [← held]
    exact Array.length_toList.symm
  have spacious : Spacious b.size b.capacity := spacious_empty.append ops
  refine ⟨held, size, size ▸ spacious, spacious.lt, fun op => ?_, ?_⟩
  · have next := (spacious.push op).lt
    rwa [size_push] at next
  · intro σ host s
    constructor
    · rw [flush_eq_call, held, size]
    · rw [flush_eq_call, held]
      rfl

end SemanticHighlight.Batch
