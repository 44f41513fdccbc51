import SemanticHighlight.Proofs.Text.Lines
import SemanticHighlight.Record.Payload

/-!
# Written records

A record is read back from its line if its kind is no tab and its identifier can be carried whole.
Such lines can be put into a reply in any order: the reader of the reply finds all of them again.
-/

set_option autoImplicit false

namespace SemanticHighlight.Record

structure Whole (ident : List Char) : Prop where
  nonempty : ident ≠ []
  unbroken : ∀ c ∈ ident, Text.isBlank c = false
  bounded : Text.byteLength ident ≤ maxIdent

instance (ident : List Char) : Decidable (Whole ident) :=
  decidable_of_iff
    (ident ≠ [] ∧ ident.all (!Text.isBlank ·) = true ∧ Text.byteLength ident ≤ maxIdent)
    ⟨fun h => ⟨h.1, by simpa using h.2.1, h.2.2⟩,
      fun h => ⟨h.nonempty, by simpa using h.unbroken, h.bounded⟩⟩

theorem Whole.absent {ident : List Char} (h : Whole ident) {c : Char}
    (blank : Text.isBlank c = true) : c ∉ ident := by
  intro hc
  rw [h.unbroken c hc] at blank
  cases blank

theorem takeBytes?_all {limit : Nat} {cs : List Char} (h : Text.byteLength cs ≤ limit) :
    takeBytes? limit cs = some cs := by
  induction cs generalizing limit with
  | nil => cases limit <;> rfl
  | cons c cs ih =>
    rw [Text.byteLength] at h
    have pos := c.utf8Size_pos
    obtain ⟨limit, rfl⟩ : ∃ n, limit = n + 1 := ⟨limit - 1, by omega⟩
    rw [takeBytes?, if_pos (by omega), ih (by omega), Option.map_some]
    exact Nat.succ_ne_zero limit

theorem ident?_whole {ident : List Char} (h : Whole ident) :
    ident? (Text.byteLength ident) ident = some ident := by
  have word : ident.takeWhile (!Text.isBlank ·) = ident := by
    have all : ∀ c ∈ ident, (!Text.isBlank c) = true := fun c hc => by rw [h.unbroken c hc]; rfl
    rw [← List.append_nil ident, List.takeWhile_append_of_pos all]
    rfl
  have limit : min (Text.byteLength ident) (min maxIdent (Text.byteLength ident)) =
      Text.byteLength ident := by have := h.bounded; omega
  simp only [ident?, word]
  rw [limit, takeBytes?_all (Nat.le_refl _)]
  simp [h.nonempty]

theorem cutTab?_append {field : List Char} (h : '\t' ∉ field) (rest : List Char) :
    cutTab? (field ++ '\t' :: rest) = some (field, rest) := by
  induction field with
  | nil => rw [List.nil_append, cutTab?, if_pos rfl]
  | cons c field ih =>
    have hc : c ≠ '\t' := fun same => h (same ▸ List.mem_cons_self)
    rw [List.cons_append, cutTab?, if_neg hc, ih fun hf => h (List.mem_cons_of_mem c hf),
      Option.map_some]

theorem cutTab?_digits (n : Nat) (rest : List Char) :
    cutTab? (Text.Decimal.digits n ++ '\t' :: rest) = some (Text.Decimal.digits n, rest) :=
  cutTab?_append (fun h => absurd (Text.Decimal.isDigit_of_mem_digits h) (by decide)) rest

theorem u32?_digits (n : UInt32) : u32? (Text.Decimal.digits n.toNat) = some n := by
  rw [u32?, Text.Decimal.read?_digits n.toNat_lt, Option.map_some, UInt32.ofNat_toNat]

theorem row_eq (kind : Char) (startLine startCol endLine endCol : Nat) (ident : List Char) :
    row kind startLine startCol endLine endCol ident =
      [kind] ++ '\t' :: (Text.Decimal.digits startLine ++ '\t' :: (Text.Decimal.digits startCol ++
        '\t' :: (Text.Decimal.digits endLine ++ '\t' :: (Text.Decimal.digits endCol ++
          '\t' :: (Text.Decimal.digits (Text.byteLength ident) ++ '\t' :: ident))))) := by
  simp [row]

theorem read?_line {r : Record} (tab : r.kind.letter ≠ '\t') (h : Whole r.ident.toList) :
    read? r.line = some r := by
  have kind : '\t' ∉ [r.kind.letter] := by simpa using tab.symm
  have length : Text.byteLength r.ident.toList < UInt64.size :=
    Nat.lt_of_le_of_lt h.bounded (by decide)
  rw [read?, line, String.toList_ofList, ofChars?, row_eq]
  -- the line is cut field by field, and then the fields are read
  refine Option.bind_eq_some_iff.2 ⟨_, cutTab?_append kind _, ?_⟩
  refine Option.bind_eq_some_iff.2 ⟨_, cutTab?_digits r.startLine.toNat _, ?_⟩
  refine Option.bind_eq_some_iff.2 ⟨_, cutTab?_digits r.startCol.toNat _, ?_⟩
  refine Option.bind_eq_some_iff.2 ⟨_, cutTab?_digits r.endLine.toNat _, ?_⟩
  refine Option.bind_eq_some_iff.2 ⟨_, cutTab?_digits r.endCol.toNat _, ?_⟩
  refine Option.bind_eq_some_iff.2 ⟨_, cutTab?_digits _ _, ?_⟩
  refine Option.bind_eq_some_iff.2 ⟨r.kind, rfl, ?_⟩
  refine Option.bind_eq_some_iff.2 ⟨_, u32?_digits r.startLine, ?_⟩
  refine Option.bind_eq_some_iff.2 ⟨_, u32?_digits r.startCol, ?_⟩
  refine Option.bind_eq_some_iff.2 ⟨_, u32?_digits r.endLine, ?_⟩
  refine Option.bind_eq_some_iff.2 ⟨_, u32?_digits r.endCol, ?_⟩
  refine Option.bind_eq_some_iff.2 ⟨_, Text.Decimal.read?_digits length, ?_⟩
  refine Option.bind_eq_some_iff.2 ⟨_, ident?_whole h, ?_⟩
  rw [String.ofList_toList]

structure Line (l : List Char) : Prop where
  nonempty : l ≠ []
  single : '\n' ∉ l
  unended : l.getLast? ≠ some '\r'

theorem line_of_record {r : Record} (feed : r.kind.letter ≠ '\n') (h : Whole r.ident.toList) :
    Line r.line.toList where
  nonempty := by simp [line, row]
  single := by
    have number (n : Nat) : '\n' ∉ Text.Decimal.digits n := fun hn =>
      absurd (Text.Decimal.isDigit_of_mem_digits hn) (by decide)
    have word := h.absent (c := '\n') (by decide)
    simp [line, row, number, word, feed.symm]
  unended := by
    intro last
    obtain ⟨c, hc⟩ := Option.isSome_iff_exists.1 (List.getLast?_isSome.2 h.nonempty)
    have same : r.line.toList.getLast? = some c := by
      simp [line, row, List.getLast?_append, List.getLast?_cons, hc]
    cases same.symm.trans last
    exact h.absent (by decide) (List.mem_of_getLast? hc)

/-- A text that lists lines: each ends with a line feed, some after a carriage return, and the last
may have no end. -/
inductive Lists : List (List Char) → List Char → Prop
  | none : Lists [] []
  | last (l : List Char) : Lists [l] l
  | feed (l : List Char) {ls : List (List Char)} {cs : List Char} (rest : Lists ls cs) :
    Lists (l :: ls) (l ++ '\n' :: cs)
  | returnFeed (l : List Char) {ls : List (List Char)} {cs : List Char} (rest : Lists ls cs) :
    Lists (l :: ls) (l ++ '\r' :: '\n' :: cs)

theorem Line.dropReturn_eq {l : List Char} (h : Line l) : Text.dropReturn l = l :=
  if_neg h.unended

theorem dropReturn_append (l : List Char) : Text.dropReturn (l ++ ['\r']) = l := by
  simp [Text.dropReturn]

theorem Lists.pieces_eq {ls : List (List Char)} {cs : List Char} (h : Lists ls cs)
    (whole : ∀ l ∈ ls, Line l) :
    ((Text.pieces '\n' cs).map Text.dropReturn).filter (· ≠ []) = ls := by
  induction h with
  | none => rfl
  | last l =>
    have hl := whole l List.mem_cons_self
    simp [Text.pieces_single hl.single, hl.dropReturn_eq, hl.nonempty]
  | feed l rest ih =>
    have hl := whole l List.mem_cons_self
    rw [Text.pieces_append hl.single, List.map_cons, hl.dropReturn_eq,
      List.filter_cons_of_pos (by simpa using hl.nonempty),
      ih fun m hm => whole m (List.mem_cons_of_mem l hm)]
  | @returnFeed l ls cs rest ih =>
    have hl := whole l List.mem_cons_self
    have single : '\n' ∉ l ++ ['\r'] := by simpa using hl.single
    rw [show l ++ '\r' :: '\n' :: cs = (l ++ ['\r']) ++ '\n' :: cs by simp,
      Text.pieces_append single, List.map_cons, dropReturn_append,
      List.filter_cons_of_pos (by simpa using hl.nonempty),
      ih fun m hm => whole m (List.mem_cons_of_mem l hm)]

theorem Lists.sortedLines_perm {ls : List String} {payload : String}
    (h : Lists (ls.map String.toList) payload.toList) (whole : ∀ l ∈ ls, Line l.toList) :
    (sortedLines payload).Perm ls := by
  have lines := h.pieces_eq (by simpa using whole)
  refine (List.mergeSort_perm _ _).trans (.of_eq ?_)
  rw [lines]
  simp

end SemanticHighlight.Record
