/-!
# Dictionaries

Finite maps with texts as keys, as the list of their entries in ascending order of the keys. Two
dictionaries that find the same values are equal.
-/

set_option autoImplicit false

namespace SemanticHighlight

structure Dictionary (α : Type) where
  entries : List (String × α) := []
  ascending : entries.Pairwise (fun a b => a.1 < b.1) := by exact .nil

namespace Dictionary

variable {α : Type}

instance : Inhabited (Dictionary α) := ⟨{}⟩

def find? (k : String) : List (String × α) → Option α
  | [] => none
  | (j, v) :: es => if j = k then some v else find? k es

def get? (d : Dictionary α) (k : String) : Option α := find? k d.entries

def insertEntry (k : String) (v : α) : List (String × α) → List (String × α)
  | [] => [(k, v)]
  | (j, w) :: es =>
    if k < j then (k, v) :: (j, w) :: es
    else if k = j then (k, v) :: es
    else (j, w) :: insertEntry k v es

theorem key_of_mem_insertEntry {k : String} {v : α} {es : List (String × α)} {e : String × α}
    (h : e ∈ insertEntry k v es) : e.1 = k ∨ e ∈ es := by
  fun_induction insertEntry k v es with
  | case1 => simp_all
  | case2 => rcases List.mem_cons.1 h with rfl | h <;> simp_all
  | case3 => rcases List.mem_cons.1 h with rfl | h <;> simp_all
  | case4 j w es _ _ ih =>
    rcases List.mem_cons.1 h with rfl | h
    · simp
    · rcases ih h with h | h <;> simp_all

theorem pairwise_insertEntry {k : String} {v : α} {es : List (String × α)}
    (h : es.Pairwise (fun a b => a.1 < b.1)) :
    (insertEntry k v es).Pairwise (fun a b => a.1 < b.1) := by
  fun_induction insertEntry k v es with
  | case1 => simp
  | case2 j w es hkj =>
    refine List.pairwise_cons.2 ⟨fun e he => ?_, h⟩
    rcases List.mem_cons.1 he with rfl | he
    · exact hkj
    · exact String.lt_trans hkj ((List.pairwise_cons.1 h).1 e he)
  | case3 w es hkj =>
    exact List.pairwise_cons.2 ⟨(List.pairwise_cons.1 h).1, h.of_cons⟩
  | case4 j w es hkj hne ih =>
    refine List.pairwise_cons.2 ⟨fun e he => ?_, ih h.of_cons⟩
    rcases key_of_mem_insertEntry he with rfl | he
    · exact Std.lt_of_le_of_ne (Std.not_lt.1 hkj) (Ne.symm hne)
    · exact (List.pairwise_cons.1 h).1 e he

def insert (d : Dictionary α) (k : String) (v : α) : Dictionary α :=
  ⟨insertEntry k v d.entries, pairwise_insertEntry d.ascending⟩

def ofList (es : List (String × α)) : Dictionary α := es.foldl (fun d e => d.insert e.1 e.2) {}

@[simp] theorem get?_insert (d : Dictionary α) (j k : String) (v : α) :
    (d.insert k v).get? j = if j = k then some v else d.get? j := by
  obtain ⟨es, h⟩ := d
  simp only [get?, insert]
  fun_induction insertEntry k v es with
  | case1 => simp only [find?, eq_comm]
  | case2 => simp only [find?, eq_comm]
  | case3 w es hkj =>
    by_cases hj : k = j
    · simp [find?, hj]
    · simp [find?, hj, Ne.symm hj]
  | case4 i w es hki hne ih =>
    by_cases hij : i = j
    · subst hij
      simp [find?, Ne.symm hne]
    · simpa [find?, hij] using ih h.of_cons

end Dictionary

end SemanticHighlight
