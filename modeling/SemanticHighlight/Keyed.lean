/-!
# Keyed values

A finite map as a list of pairs, one for each key. What `get?` finds after `set` and `erase`
determines the map; the order of the pairs is never looked at.
-/

set_option autoImplicit false

namespace SemanticHighlight

structure Keyed (κ α : Type) where
  entries : List (κ × α) := []

namespace Keyed

variable {κ α : Type} [DecidableEq κ]

instance : Inhabited (Keyed κ α) := ⟨{}⟩

def find? (k : κ) : List (κ × α) → Option α
  | [] => none
  | (j, v) :: es => if j = k then some v else find? k es

def get? (m : Keyed κ α) (k : κ) : Option α := find? k m.entries

def erase (m : Keyed κ α) (k : κ) : Keyed κ α := ⟨m.entries.filter (·.1 ≠ k)⟩

def set (m : Keyed κ α) (k : κ) (v : α) : Keyed κ α := ⟨(k, v) :: (m.erase k).entries⟩

def ofList (es : List (κ × α)) : Keyed κ α := es.foldl (fun m e => m.set e.1 e.2) {}

@[simp] theorem get?_empty (k : κ) : ({} : Keyed κ α).get? k = none := rfl

theorem find?_filter_ne (es : List (κ × α)) (j k : κ) :
    find? j (es.filter (·.1 ≠ k)) = if j = k then none else find? j es := by
  induction es with
  | nil => simp [find?]
  | cons e es ih =>
    obtain ⟨i, v⟩ := e
    by_cases hik : i = k
    · subst hik
      by_cases hj : j = i <;> simp_all [find?, eq_comm]
    · by_cases hij : i = j
      · subst hij
        simp [find?, hik]
      · simpa [find?, hik, hij] using ih

@[simp] theorem get?_erase (m : Keyed κ α) (j k : κ) :
    (m.erase k).get? j = if j = k then none else m.get? j :=
  find?_filter_ne m.entries j k

@[simp] theorem get?_set (m : Keyed κ α) (j k : κ) (v : α) :
    (m.set k v).get? j = if j = k then some v else m.get? j := by
  by_cases h : j = k
  · simp [set, get?, find?, h]
  · have := get?_erase m j k
    simp_all [set, get?, find?, eq_comm]

end Keyed

end SemanticHighlight
