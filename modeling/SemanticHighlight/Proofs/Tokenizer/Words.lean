import SemanticHighlight.Proofs.Text.Lines
import SemanticHighlight.Text.Utf8
import SemanticHighlight.Tokenizer.Basic

/-!
# The words of a line

Each word is a longest run of word characters, found where it stands on its line: its column is the
length in bytes of what stands before it. Words come from left to right, with at least one character
between two of them. A carriage return behind the line changes none of them.
-/

set_option autoImplicit false

namespace SemanticHighlight.Tokenizer

open Text (byteLength byteLength_append)

theorem continues_of_starts {c : Char} (h : startsWord c = true) : continuesWord c = true := by
  simp only [startsWord, continuesWord, Char.isAlphanum, Bool.or_eq_true] at h ⊢
  exact h.imp .inl id

theorem isUpper_iff (c : Char) : c.isUpper = true ↔ 65 ≤ c.toNat ∧ c.toNat ≤ 90 :=
  decide_eq_true_iff

theorem isLower_iff (c : Char) : c.isLower = true ↔ 97 ≤ c.toNat ∧ c.toNat ≤ 122 :=
  Bool.and_eq_true_iff.trans (and_congr decide_eq_true_iff decide_eq_true_iff)

theorem isDigit_iff (c : Char) : c.isDigit = true ↔ 48 ≤ c.toNat ∧ c.toNat ≤ 57 :=
  Bool.and_eq_true_iff.trans (and_congr decide_eq_true_iff decide_eq_true_iff)

theorem underscore_iff (c : Char) : c = '_' ↔ c.toNat = 95 := Char.toNat_inj.symm

theorem starts_iff (c : Char) : startsWord c = true ↔
    65 ≤ c.toNat ∧ c.toNat ≤ 90 ∨ 97 ≤ c.toNat ∧ c.toNat ≤ 122 ∨ c.toNat = 95 := by
  have parts : startsWord c = (c.isUpper || c.isLower || decide (c = '_')) := rfl
  rw [parts, Bool.or_eq_true, Bool.or_eq_true, isUpper_iff, isLower_iff, decide_eq_true_iff,
    underscore_iff, or_assoc]

theorem continues_iff (c : Char) : continuesWord c = true ↔
    65 ≤ c.toNat ∧ c.toNat ≤ 90 ∨ 97 ≤ c.toNat ∧ c.toNat ≤ 122 ∨ 48 ≤ c.toNat ∧ c.toNat ≤ 57 ∨
      c.toNat = 95 := by
  have parts : continuesWord c = (c.isUpper || c.isLower || c.isDigit || decide (c = '_')) := rfl
  rw [parts, Bool.or_eq_true, Bool.or_eq_true, Bool.or_eq_true, isUpper_iff, isLower_iff,
    isDigit_iff, decide_eq_true_iff, underscore_iff, or_assoc, or_assoc]

theorem toNat_of_continues {c : Char} (h : continuesWord c = true) : c.toNat < 128 := by
  rw [continues_iff] at h
  omega

theorem utf8Size_of_continues {c : Char} (h : continuesWord c = true) : c.utf8Size = 1 := by
  have small := toNat_of_continues h
  rw [Char.utf8Size_eq_one_iff, UInt32.le_iff_toNat_le]
  exact Nat.le_of_lt_succ small

theorem byteLength_of_continues {cs : List Char} (h : ∀ c ∈ cs, continuesWord c = true) :
    byteLength cs = cs.length := by
  induction cs with
  | nil => rfl
  | cons c cs ih =>
    rw [byteLength, utf8Size_of_continues (h c List.mem_cons_self),
      ih fun d hd => h d (List.mem_cons_of_mem c hd), List.length_cons, Nat.add_comm]

namespace Word

/-- The word is a longest run of word characters, the first of which begins a word. -/
structure Spelled (w : Word) : Prop where
  starts : ∃ c cs, w.text = c :: cs ∧ startsWord c = true
  continues : ∀ c ∈ w.text, continuesWord c = true
  ends : ∀ c, w.rest.head? = some c → continuesWord c = false

structure Behind (w : Word) (column : Nat) (front cs : List Char) : Prop where
  parts : cs = front ++ (w.text ++ w.rest)
  column_eq : w.column = column + byteLength front

theorem Spelled.stop_eq {w : Word} (h : w.Spelled) : w.stop = w.column + byteLength w.text := by
  rw [stop, byteLength_of_continues h.continues]

theorem Spelled.column_lt_stop {w : Word} (h : w.Spelled) : w.column < w.stop := by
  obtain ⟨c, cs, text, -⟩ := h.starts
  rw [stop, text, List.length_cons]
  omega

end Word

theorem head?_dropWhile {α : Type} {p : α → Bool} {xs : List α} {x : α}
    (h : (xs.dropWhile p).head? = some x) : p x = false := by
  have stopped := List.head?_dropWhile_not p xs
  rwa [h] at stopped

theorem spelled_first (column : Nat) (before? : Option Char) {c : Char} (starts : startsWord c = true)
    (cs : List Char) :
    Word.Spelled ⟨column, c :: cs.takeWhile continuesWord, before?, cs.dropWhile continuesWord⟩ where
  starts := ⟨c, _, rfl, starts⟩
  continues := by
    intro d hd
    rcases List.mem_cons.1 hd with rfl | hd
    · exact continues_of_starts starts
    · exact List.all_eq_true.1 List.all_takeWhile d hd
  ends _ := head?_dropWhile

theorem wordsFrom_spelled {column : Nat} {before? : Option Char} {cs : List Char} {w : Word}
    (h : w ∈ wordsFrom column before? cs) :
    w.Spelled ∧ ∃ front, w.Behind column front cs := by
  fun_induction wordsFrom column before? cs with
  | case1 => cases h
  | case2 column before? c cs starts text rest ih =>
    have first := spelled_first column before? starts cs
    have whole : c :: cs = text ++ rest :=
      congrArg (c :: ·) List.takeWhile_append_dropWhile.symm
    rcases List.mem_cons.1 h with rfl | h
    · exact ⟨first, [], whole, rfl⟩
    · obtain ⟨spelled, front, parts, here⟩ := ih h
      refine ⟨spelled, text ++ front, ?_, ?_⟩
      · rw [whole, parts, List.append_assoc]
      · rw [here, byteLength_append, byteLength_of_continues first.continues, Nat.add_assoc]
  | case3 column before? c cs other ih =>
    obtain ⟨spelled, front, rfl, here⟩ := ih h
    exact ⟨spelled, c :: front, rfl, by rw [here, byteLength, Nat.add_assoc]⟩

theorem column_lt_of_mem {column : Nat} {before? : Option Char} {cs : List Char} {w : Word}
    (h : w ∈ wordsFrom column before? cs)
    (begins : ∀ c, cs.head? = some c → continuesWord c = false) : column < w.column := by
  obtain ⟨spelled, front, rfl, here⟩ := wordsFrom_spelled h
  obtain ⟨c, cs, text, starts⟩ := spelled.starts
  cases front with
  | nil =>
    have other := begins c (by simp [text])
    rw [continues_of_starts starts] at other
    cases other
  | cons d front =>
    have pos := d.utf8Size_pos
    rw [here, byteLength]
    omega

theorem wordsFrom_apart (column : Nat) (before? : Option Char) (cs : List Char) :
    (wordsFrom column before? cs).Pairwise fun v w => v.stop < w.column := by
  fun_induction wordsFrom column before? cs with
  | case1 => exact .nil
  | case2 column before? c cs starts text rest ih =>
    exact .cons (fun w hw => column_lt_of_mem hw fun d => head?_dropWhile) ih
  | case3 column before? c cs other ih => exact ih

theorem words_spelled {line : List Char} {w : Word} (h : w ∈ words line) : w.Spelled :=
  (wordsFrom_spelled h).1

theorem words_parts {line : List Char} {w : Word} (h : w ∈ words line) :
    ∃ front, line = front ++ (w.text ++ w.rest) ∧ byteLength front = w.column := by
  obtain ⟨-, front, parts, here⟩ := wordsFrom_spelled h
  exact ⟨front, parts, by rw [here, Nat.zero_add]⟩

def Word.extended (w : Word) (cs : List Char) : Word := { w with rest := w.rest ++ cs }

theorem span_return (cs : List Char) :
    (cs ++ ['\r']).takeWhile continuesWord = cs.takeWhile continuesWord ∧
      (cs ++ ['\r']).dropWhile continuesWord = cs.dropWhile continuesWord ++ ['\r'] := by
  induction cs with
  | nil => exact ⟨rfl, rfl⟩
  | cons c cs ih => by_cases hc : continuesWord c = true <;> simp [hc, ih]

theorem wordsFrom_return (column : Nat) (before? : Option Char) (cs : List Char) :
    wordsFrom column before? (cs ++ ['\r']) =
      (wordsFrom column before? cs).map (·.extended ['\r']) := by
  fun_induction wordsFrom column before? cs with
  | case1 => simp [wordsFrom, startsWord]
  | case2 column before? c cs starts text rest ih =>
    obtain ⟨run, left⟩ := span_return cs
    rw [List.cons_append, wordsFrom, if_pos starts, run, left]
    dsimp only
    rw [ih]
    rfl
  | case3 column before? c cs other ih => rw [List.cons_append, wordsFrom, if_neg other, ih]

theorem isCalled_return (w : Word) : isCalled (w.extended ['\r']) = isCalled w := by
  have blank : ['\r'].dropWhile isSpace = [] := rfl
  rw [isCalled, isCalled, Word.extended, List.dropWhile_append, blank]
  cases h : w.rest.dropWhile isSpace <;> simp

theorem kind?_return (previous : Option (List Char)) (w : Word) :
    kind? previous (w.extended ['\r']) = kind? previous w := by
  rw [kind?, isCalled_return]
  rfl

theorem rows_return (line : Nat) (previous : Option (List Char)) (ws : List Word) :
    rows line previous (ws.map (·.extended ['\r'])) = rows line previous ws := by
  induction ws generalizing previous with
  | nil => rfl
  | cons w ws ih =>
    rw [List.map_cons, rows, rows, kind?_return, ← ih]
    rfl

theorem lineRows_dropReturn (line : Nat) (text : List Char) :
    lineRows line (Text.dropReturn text) = lineRows line text := by
  unfold Text.dropReturn
  split
  · rename_i last
    obtain ⟨front, rfl⟩ := List.getLast?_eq_some_iff.1 last
    rw [List.dropLast_concat, lineRows, lineRows, words, words, wordsFrom_return, rows_return]
  · rfl

end SemanticHighlight.Tokenizer
