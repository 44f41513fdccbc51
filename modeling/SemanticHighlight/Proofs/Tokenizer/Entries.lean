import SemanticHighlight.Proofs.Record.Rows
import SemanticHighlight.Proofs.Text.Lines
import SemanticHighlight.Proofs.Tokenizer.Words

/-!
# The entries of a reply

What the tokenizer reports, before it is written: each word that has a kind, with the kind and the
number of its line. The reply has one line for each entry, in the order of the entries, and that line
falls into the fields of the entry. Entries come line by line, and on a line from left to right.
-/

set_option autoImplicit false

namespace SemanticHighlight.Tokenizer

open Text (pieces)
open Text.Decimal (digits)

structure Entry where
  line : Nat
  tag : Tag
  word : Word

namespace Entry

def text (e : Entry) : List Char :=
  Record.row e.tag.letter e.line e.word.column e.line e.word.stop e.word.text

def fields (e : Entry) : List (List Char) :=
  [[e.tag.letter], digits e.line, digits e.word.column, digits e.line, digits e.word.stop,
    digits (Text.byteLength e.word.text), e.word.text]

structure Sound (e : Entry) : Prop where
  letter : e.tag.letter.isAlpha = true
  spelled : e.word.Spelled

def Before (e f : Entry) : Prop :=
  e.line < f.line ∨ e.line = f.line ∧ e.word.stop < f.word.column

end Entry

def entriesOn (line : Nat) : Option (List Char) → List Word → List Entry
  | _, [] => []
  | previous, w :: ws =>
    ((kind? previous w).map (⟨line, ·, w⟩)).toList ++ entriesOn line (some w.text) ws

def entriesFrom (line : Nat) : List (List Char) → List Entry
  | [] => []
  | l :: ls => entriesOn line none (words l) ++ entriesFrom (line + 1) ls

theorem rows_eq (line : Nat) (previous : Option (List Char)) (ws : List Word) :
    rows line previous ws = (entriesOn line previous ws).map (·.text ++ ['\n']) := by
  induction ws generalizing previous with
  | nil => rfl
  | cons w ws ih =>
    rw [rows, entriesOn, List.map_append, ih]
    cases kind? previous w <;> rfl

theorem rowsFrom_eq (line : Nat) (ls : List (List Char)) :
    rowsFrom line ls = (entriesFrom line ls).map (·.text ++ ['\n']) := by
  induction ls generalizing line with
  | nil => rfl
  | cons l ls ih => rw [rowsFrom, entriesFrom, List.map_append, ih, lineRows, rows_eq]

theorem isAlpha_of_declaredBy? {previous : List Char} {tag : Tag}
    (h : declaredBy? previous = some tag) : tag.letter.isAlpha = true := by
  have letters : ∀ d ∈ declaring, d.2.letter.isAlpha = true := by decide
  obtain ⟨d, found, rfl⟩ := Option.map_eq_some_iff.1 h
  exact letters d (List.mem_of_find?_eq_some found)

theorem isAlpha_of_kind? {previous : Option (List Char)} {w : Word} {tag : Tag}
    (h : kind? previous w = some tag) : tag.letter.isAlpha = true := by
  unfold kind? at h
  split at h
  · cases h
  split at h
  · rename_i declared
    obtain ⟨previous, -, declared⟩ := Option.bind_eq_some_iff.1 declared
    cases h
    exact isAlpha_of_declaredBy? declared
  split at h
  · cases h
    rfl
  split at h
  · cases h
    rfl
  split at h
  · cases h
    rfl
  · cases h

theorem mem_entriesOn {line : Nat} {previous : Option (List Char)} {ws : List Word} {e : Entry}
    (h : e ∈ entriesOn line previous ws) :
    e.line = line ∧ e.tag.letter.isAlpha = true ∧ e.word ∈ ws := by
  induction ws generalizing previous with
  | nil => cases h
  | cons w ws ih =>
    rw [entriesOn, List.mem_append] at h
    rcases h with h | h
    · obtain ⟨tag, kind, rfl⟩ := Option.map_eq_some_iff.1 (Option.mem_toList.1 h)
      exact ⟨rfl, isAlpha_of_kind? kind, List.mem_cons_self⟩
    · obtain ⟨number, letter, member⟩ := ih h
      exact ⟨number, letter, List.mem_cons_of_mem w member⟩

theorem mem_entriesFrom {line : Nat} {ls : List (List Char)} {e : Entry}
    (h : e ∈ entriesFrom line ls) :
    e.Sound ∧ ∃ i l, e.line = line + i ∧ ls[i]? = some l ∧ e.word ∈ words l := by
  induction ls generalizing line with
  | nil => cases h
  | cons l ls ih =>
    rw [entriesFrom, List.mem_append] at h
    rcases h with h | h
    · obtain ⟨number, letter, member⟩ := mem_entriesOn h
      exact ⟨⟨letter, words_spelled member⟩, 0, l, number, rfl, member⟩
    · obtain ⟨sound, i, l', number, found, member⟩ := ih h
      exact ⟨sound, i + 1, l', by omega, found, member⟩

theorem entriesOn_sublist (line : Nat) (previous : Option (List Char)) (ws : List Word) :
    ((entriesOn line previous ws).map (·.word)).Sublist ws := by
  induction ws generalizing previous with
  | nil => exact .slnil
  | cons w ws ih =>
    rw [entriesOn]
    cases kind? previous w with
    | none => exact (ih _).cons w
    | some tag => exact (ih _).cons_cons w

theorem entriesOn_ordered (line : Nat) (l : List Char) :
    (entriesOn line none (words l)).Pairwise Entry.Before := by
  have apart := (wordsFrom_apart 0 none l).sublist (entriesOn_sublist line none (words l))
  refine (List.pairwise_map.1 apart).imp_of_mem fun he hf before => .inr ⟨?_, before⟩
  rw [(mem_entriesOn he).1, (mem_entriesOn hf).1]

theorem entriesFrom_ordered (line : Nat) (ls : List (List Char)) :
    (entriesFrom line ls).Pairwise Entry.Before := by
  induction ls generalizing line with
  | nil => exact .nil
  | cons l ls ih =>
    rw [entriesFrom, List.pairwise_append]
    refine ⟨entriesOn_ordered line l, ih (line + 1), fun e he f hf => .inl ?_⟩
    obtain ⟨here, -⟩ := mem_entriesOn he
    obtain ⟨-, i, -, below, -⟩ := mem_entriesFrom hf
    omega

theorem absent_digits {c : Char} (h : c.isDigit = false) (n : Nat) : c ∉ digits n := by
  intro hc
  rw [Text.Decimal.isDigit_of_mem_digits hc] at h
  cases h

theorem Word.Spelled.absent {w : Word} (spelled : w.Spelled) {c : Char}
    (h : continuesWord c = false) : c ∉ w.text := by
  intro hc
  rw [spelled.continues c hc] at h
  cases h

namespace Entry.Sound

variable {e : Entry}

theorem letter_ne (h : e.Sound) {c : Char} (other : c.isAlpha = false) : c ≠ e.tag.letter := by
  rintro rfl
  rw [h.letter] at other
  cases other

theorem pieces_text (h : e.Sound) : pieces '\t' e.text = e.fields := by
  have number : ∀ n, '\t' ∉ digits n := absent_digits (by decide)
  have kind : '\t' ∉ [e.tag.letter] := by simpa using h.letter_ne (by decide)
  rw [text, Record.row_eq, Text.pieces_append kind, Text.pieces_append (number _),
    Text.pieces_append (number _), Text.pieces_append (number _), Text.pieces_append (number _),
    Text.pieces_append (number _), Text.pieces_single (h.spelled.absent (by decide)), fields]

theorem single (h : e.Sound) : '\n' ∉ e.text := by
  have number : ∀ n, '\n' ∉ digits n := absent_digits (by decide)
  have kind := h.letter_ne (c := '\n') (by decide)
  have word := h.spelled.absent (c := '\n') (by decide)
  simp [text, Record.row, number, kind, word]

theorem unended (h : e.Sound) : e.text.getLast? ≠ some '\r' := by
  obtain ⟨c, cs, word, -⟩ := h.spelled.starts
  have nonempty : e.word.text ≠ [] := by simp [word]
  have last : e.text.getLast? = e.word.text.getLast? := by
    obtain ⟨d, hd⟩ := Option.isSome_iff_exists.1 (List.getLast?_isSome.2 nonempty)
    simp [text, Record.row, List.getLast?_append, List.getLast?_cons, hd]
  rw [last]
  exact fun ended => h.spelled.absent (by decide) (List.mem_of_getLast? ended)

end Entry.Sound

theorem lines_tokenize (source : String) :
    Text.lines (tokenize source).toList =
      (entriesFrom 0 (Text.lines source.toList)).map Entry.text := by
  have sound : ∀ e ∈ entriesFrom 0 (Text.lines source.toList), e.Sound :=
    fun e he => (mem_entriesFrom he).1
  have rows : (rowsFrom 0 (Text.lines source.toList)).flatten =
      ((entriesFrom 0 (Text.lines source.toList)).map Entry.text).flatMap (· ++ ['\n']) := by
    rw [rowsFrom_eq, List.flatMap_map, List.flatMap_def]
  rw [tokenize, String.toList_ofList, rows]
  apply Text.lines_ended
  · exact List.forall_mem_map.2 fun e he => (sound e he).single
  · exact List.forall_mem_map.2 fun e he => (sound e he).unended

end SemanticHighlight.Tokenizer
