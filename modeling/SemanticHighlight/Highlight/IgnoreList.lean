/-!
# Ignored identifiers

The spellings that are never highlighted, in ascending order and without repetitions, so that
membership is a binary search.
-/

set_option autoImplicit false

namespace SemanticHighlight

structure IgnoreList where
  words : Array String
  ascending : words.toList.Pairwise (· < ·)

namespace IgnoreList

def dropRepeats : List String → List String
  | a :: b :: ws => if a = b then dropRepeats (b :: ws) else a :: dropRepeats (b :: ws)
  | ws => ws

theorem mem_dropRepeats (w : String) (ws : List String) : w ∈ dropRepeats ws ↔ w ∈ ws := by
  fun_induction dropRepeats ws <;> simp_all

theorem pairwise_dropRepeats {ws : List String} (h : ws.Pairwise (· ≤ ·)) :
    (dropRepeats ws).Pairwise (· < ·) := by
  fun_induction dropRepeats ws with
  | case1 b ws ih => exact ih h.of_cons
  | case2 a b ws hab ih =>
    refine List.pairwise_cons.2 ⟨fun x hx => ?_, ih h.of_cons⟩
    have hb : a < b := Std.lt_of_le_of_ne ((List.pairwise_cons.1 h).1 b (by simp)) hab
    rcases List.mem_cons.1 ((mem_dropRepeats x _).1 hx) with rfl | hx
    · exact hb
    · exact Std.lt_of_lt_of_le hb ((List.pairwise_cons.1 h.of_cons).1 x hx)
  | case3 ws hws =>
    match ws with
    | [] => exact .nil
    | [a] => simp
    | a :: b :: ws => exact (hws a b ws rfl).elim

def wordLE (a b : String) : Bool := decide (a ≤ b)

def sorted (ws : List String) : List String := ws.mergeSort wordLE

theorem pairwise_sorted (ws : List String) : (sorted ws).Pairwise (· ≤ ·) := by
  have h := @List.pairwise_mergeSort _ wordLE
    (by simpa [wordLE] using fun a b c hab hbc => String.le_trans hab hbc)
    (by simpa [wordLE] using fun a b => String.le_total a b) ws
  simpa [sorted, wordLE] using h

def ofList (ws : List String) : IgnoreList where
  words := (dropRepeats (sorted ws)).toArray
  ascending := pairwise_dropRepeats (pairwise_sorted ws)

def size (l : IgnoreList) : Nat := l.words.size

/-- Whether `w` is among the words from position `lo` to before `hi`. -/
def search (words : Array String) (w : String) (lo hi : Nat) : Bool :=
  if lo < hi then
    let mid := (lo + hi) / 2
    match words[mid]? with
    | none => false
    | some x =>
      if x = w then true
      else if x < w then search words w (mid + 1) hi
      else search words w lo mid
  else false
termination_by hi - lo

def contains (l : IgnoreList) (w : String) : Bool := search l.words w 0 l.words.size

end IgnoreList

end SemanticHighlight
