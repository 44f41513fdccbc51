import Mathlib.Data.List.Induction
import Mathlib.Data.List.Nodup
import Mathlib.Data.List.Perm.Basic
import SemanticHighlight.Proofs.Settings.RoundTrip

/-!
# Dictionaries as maps

What is found under each key determines a dictionary. Of the entries it is made from, the last one
of each key is found, so their order matters only among entries of the same key.
-/

set_option autoImplicit false

namespace SemanticHighlight.Dictionary

variable {α : Type}

theorem find?_eq_some_iff {es : List (String × α)} (distinct : (es.map Prod.fst).Nodup)
    {k : String} {v : α} : find? k es = some v ↔ (k, v) ∈ es := by
  induction es with
  | nil => simp [find?]
  | cons e es ih =>
    obtain ⟨j, w⟩ := e
    rw [List.map_cons, List.nodup_cons] at distinct
    by_cases same : j = k
    · subst same
      have absent : (j, v) ∉ es := fun h => distinct.1 (List.mem_map.mpr ⟨_, h, rfl⟩)
      simp [find?, absent, eq_comm]
    · simp [find?, same, Ne.symm same, ih distinct.2]

theorem keys_distinct (d : Dictionary α) : (d.entries.map Prod.fst).Nodup :=
  List.pairwise_map.mpr (d.ascending.imp String.ne_of_lt)

theorem eq_of_get? {d d' : Dictionary α} (h : ∀ k, d.get? k = d'.get? k) : d = d' := by
  have same : d.entries.Perm d'.entries := by
    refine (List.perm_ext_iff_of_nodup d.keys_distinct.of_map d'.keys_distinct.of_map).mpr ?_
    rintro ⟨k, v⟩
    rw [← find?_eq_some_iff d.keys_distinct, ← find?_eq_some_iff d'.keys_distinct]
    exact Eq.congr_left (h k)
  -- no two entries are each before the other
  have antisymmetric (e e' : String × α) (before : e.1 < e'.1) (after : e'.1 < e.1) : e = e' :=
    absurd after (String.lt_asymm before)
  apply entries_injective
  exact same.eq_of_pairwise (fun e e' _ _ => antisymmetric e e') d.ascending d'.ascending

theorem insert_insert (d : Dictionary α) (k : String) (v w : α) :
    (d.insert k v).insert k w = d.insert k w := by
  refine eq_of_get? fun j => ?_
  by_cases hj : j = k <;> simp [hj]

theorem insert_comm (d : Dictionary α) {j k : String} (h : j ≠ k) (v w : α) :
    (d.insert j v).insert k w = (d.insert k w).insert j v := by
  refine eq_of_get? fun i => ?_
  by_cases hi : i = k
  · subst hi
    simp [Ne.symm h]
  · simp [hi]

theorem ofList_concat (es : List (String × α)) (e : String × α) :
    ofList (es ++ [e]) = (ofList es).insert e.1 e.2 := by
  rw [ofList, List.foldl_append]
  rfl

theorem ofList_perm {es es' : List (String × α)} (h : es.Perm es')
    (distinct : (es.map Prod.fst).Nodup) : ofList es = ofList es' := by
  rw [ofList, ofList]
  refine h.foldl_eq' (fun e he e' he' d => ?_) _
  by_cases same : e.1 = e'.1
  · rw [List.inj_on_of_nodup_map distinct he he' same]
  · exact insert_comm d same e.2 e'.2

theorem ofList_append_cons (es es' : List (String × α)) (e : String × α) :
    ofList (es ++ e :: es') =
      if e.1 ∈ es'.map Prod.fst then ofList (es ++ es')
      else (ofList (es ++ es')).insert e.1 e.2 := by
  induction es' using List.reverseRecOn with
  | nil => simp [ofList_concat]
  | append_singleton es' f ih =>
    have left : es ++ e :: (es' ++ [f]) = (es ++ e :: es') ++ [f] := by simp
    rw [left, ← List.append_assoc, ofList_concat, ofList_concat, ih]
    by_cases same : e.1 = f.1
    · split <;> simp [same, insert_insert]
    · split <;> simp [*, insert_comm _ same]

end SemanticHighlight.Dictionary
