import SemanticHighlight.Text.Lines

/-!
# Pieces and lines of joined text

Pieces without separators that are written one after the other, each with a separator behind it or
between it and the next, are the pieces that the text is cut into. Of two texts with a separator
between them, the pieces are those of the one and then those of the other.
-/

set_option autoImplicit false

namespace SemanticHighlight.Text

variable {sep : Char}

theorem pieces_single {p : List Char} (h : sep ∉ p) : pieces sep p = [p] := by
  induction p with
  | nil => rfl
  | cons c p ih =>
    have hc : c ≠ sep := fun same => h (same ▸ List.mem_cons_self)
    rw [pieces, if_neg hc, ih fun hp => h (List.mem_cons_of_mem c hp)]

theorem pieces_append {p : List Char} (h : sep ∉ p) (cs : List Char) :
    pieces sep (p ++ sep :: cs) = p :: pieces sep cs := by
  induction p with
  | nil => simp [pieces]
  | cons c p ih =>
    have hc : c ≠ sep := fun same => h (same ▸ List.mem_cons_self)
    rw [List.cons_append, pieces, if_neg hc, ih fun hp => h (List.mem_cons_of_mem c hp)]

theorem length_pieces (sep : Char) (cs : List Char) :
    (pieces sep cs).length = cs.count sep + 1 := by
  induction cs with
  | nil => rfl
  | cons c cs ih =>
    obtain ⟨p, ps, cut⟩ := List.exists_cons_of_ne_nil (pieces_ne_nil sep cs)
    rw [cut] at ih
    by_cases hc : c = sep
    · subst hc
      simpa [pieces, cut] using ih
    · simpa [pieces, hc, cut] using ih

theorem pieces_eq_cons (sep : Char) (cs : List Char) :
    ∃ ps, pieces sep cs = cs.takeWhile (· ≠ sep) :: ps := by
  induction cs with
  | nil => exact ⟨[], rfl⟩
  | cons c cs ih =>
    obtain ⟨ps, cut⟩ := ih
    by_cases hc : c = sep
    · exact ⟨pieces sep cs, by simp [pieces, hc]⟩
    · exact ⟨ps, by rw [pieces, if_neg hc, cut, List.takeWhile_cons_of_pos (by simpa using hc)]⟩

theorem eq_append_of_pieces {p q : List Char} {ps : List (List Char)} {cs : List Char}
    (h : pieces sep cs = p :: q :: ps) :
    ∃ rest, sep ∉ p ∧ cs = p ++ sep :: rest ∧ pieces sep rest = q :: ps := by
  induction cs generalizing p with
  | nil => cases h
  | cons c cs ih =>
    by_cases hc : c = sep
    · rw [pieces, if_pos hc] at h
      obtain ⟨rfl, after⟩ := List.cons.inj h
      exact ⟨cs, by simp, by rw [hc]; rfl, after⟩
    · obtain ⟨first, more, cut⟩ := List.exists_cons_of_ne_nil (pieces_ne_nil sep cs)
      rw [pieces, if_neg hc, cut] at h
      cases h
      obtain ⟨rest, absent, rfl, after⟩ := ih cut
      exact ⟨rest, by simpa using ⟨Ne.symm hc, absent⟩, rfl, after⟩

theorem pieces_eq_splitOn (sep : Char) (cs : List Char) : pieces sep cs = cs.splitOn sep := by
  induction cs with
  | nil => rfl
  | cons c cs ih =>
    obtain ⟨p, ps, cut⟩ := List.exists_cons_of_ne_nil (List.splitOn_ne_nil sep cs)
    rw [pieces, ih, List.splitOn_cons_eq_if_modifyHead, cut]
    by_cases hc : c = sep <;> simp [hc]

theorem pieces_ended {ps : List (List Char)} (h : ∀ p ∈ ps, sep ∉ p) :
    pieces sep (ps.flatMap (· ++ [sep])) = ps ++ [[]] := by
  induction ps with
  | nil => rfl
  | cons p ps ih =>
    rw [List.flatMap_cons, List.append_assoc, List.singleton_append, pieces_append (h p (by simp)),
      ih fun q hq => h q (List.mem_cons_of_mem p hq), List.cons_append]

theorem pieces_join (sep : Char) (cs ds : List Char) :
    pieces sep (cs ++ sep :: ds) = pieces sep cs ++ pieces sep ds := by
  induction cs with
  | nil => simp [pieces]
  | cons c cs ih =>
    obtain ⟨p, ps, cut⟩ := List.exists_cons_of_ne_nil (pieces_ne_nil sep cs)
    rw [List.cons_append, pieces, pieces, ih, cut]
    by_cases hc : c = sep <;> simp [hc]

theorem endLines_append (ps : List (List Char)) {qs : List (List Char)} (h : qs ≠ []) :
    endLines (ps ++ qs) = ps.map dropReturn ++ endLines qs := by
  induction ps with
  | nil => rfl
  | cons p ps ih =>
    have more : ps ++ qs ≠ [] := List.append_ne_nil_of_right_ne_nil ps h
    rw [List.cons_append, endLines, ih, List.map_cons, List.cons_append]
    exact more

theorem lines_ended {ps : List (List Char)} (single : ∀ p ∈ ps, '\n' ∉ p)
    (unended : ∀ p ∈ ps, p.getLast? ≠ some '\r') : lines (ps.flatMap (· ++ ['\n'])) = ps := by
  have kept : ∀ p ∈ ps, dropReturn p = id p := fun p hp => if_neg (unended p hp)
  rw [lines, pieces_ended single, endLines_append ps (by simp), List.map_congr_left kept]
  simp [endLines]

end SemanticHighlight.Text
