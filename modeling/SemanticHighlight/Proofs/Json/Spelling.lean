import SemanticHighlight.Json.Lexer
import SemanticHighlight.Json.Printer

/-!
# Spelled tokens

A string, a number and a word are read back from the way they are written, whatever follows, as long
as a number or a word is not followed by more of its kind. So a text that spells tokens one after
the other, with any white space between them, is cut into just these tokens.
-/

set_option autoImplicit false

namespace SemanticHighlight

namespace Text

theorem Hexadecimal.digit_mod (n : Nat) : Hexadecimal.digit (n % 16) = Hexadecimal.digit n := by
  simp only [Hexadecimal.digit, Nat.mod_mod]

namespace Decimal

theorem head?_digits_ne_zero {n : Nat} (h : 0 < n) : (digits n).head? ≠ some '0' := by
  fun_induction digits n with
  | case1 n small =>
    have hd : (digit n).toNat = 48 + n := by rw [toNat_digit, Nat.mod_eq_of_lt small]
    intro h0
    rw [List.head?_cons, Option.some.injEq] at h0
    rw [h0] at hd
    have : '0'.toNat = 48 := rfl
    omega
  | case2 n large ih =>
    rw [List.head?_append, Option.or_of_isSome (by simp [digits_ne_nil])]
    exact ih (by omega)

end Decimal

end Text

namespace Json

theorem hexValue?_digit (n : Nat) : hexValue? (Text.Hexadecimal.digit n) = some (n % 16) := by
  have h : ∀ k < 16, hexValue? (Text.Hexadecimal.digit k) = some k := by decide
  rw [← Text.Hexadecimal.digit_mod]
  exact h (n % 16) (Nat.mod_lt n (by decide))

theorem unit?_digits {n : Nat} (h : n < 0x20) :
    unit? '0' '0' (Text.Hexadecimal.digit (n / 16)) (Text.Hexadecimal.digit n) = some n := by
  have zero : hexValue? '0' = some 0 := by decide
  simp only [unit?, zero, hexValue?_digit, Option.some.injEq]
  omega

theorem stringRest_short {e c : Char} (h : shortEscape? e = some c) (cs : List Char) :
    stringRest ('\\' :: e :: cs) = (stringRest cs).map fun (s, rest) => (.char c :: s, rest) := by
  have hu : e ≠ 'u' := by
    rintro rfl
    cases h
  rw [stringRest]
  · rw [h]
    cases stringRest cs <;> rfl
  · rintro _ _ _ _ _ rfl
    exact absurd rfl hu

theorem stringRest_unit {a b c d : Char} {u : Nat} (h : unit? a b c d = some u) (cs : List Char) :
    stringRest ('\\' :: 'u' :: a :: b :: c :: d :: cs) =
      (stringRest cs).map fun (s, rest) => (.unit u :: s, rest) := by
  rw [stringRest, h]
  cases stringRest cs <;> rfl

theorem stringRest_char {c : Char} (quote : c ≠ '"') (backslash : c ≠ '\\')
    (printed : 0x20 ≤ c.toNat) (cs : List Char) :
    stringRest (c :: cs) = (stringRest cs).map fun (s, rest) => (.char c :: s, rest) := by
  rw [stringRest, if_neg (by simp [backslash, printed])]
  · cases stringRest cs <;> rfl
  · exact quote
  · simp [backslash]
  · simp [backslash]

def spelled (c : Char) : Spelled :=
  if c.toNat < 0x20 ∧ c ∉ ['\x08', '\x0C', '\n', '\r', '\t'] then .unit c.toNat else .char c

theorem escape_cases (c : Char) :
    (∃ e, escape c = ['\\', e] ∧ shortEscape? e = some c ∧ spelled c = .char c) ∨
    (c.toNat < 0x20 ∧ spelled c = .unit c.toNat ∧ escape c = ['\\', 'u', '0', '0',
      Text.Hexadecimal.digit (c.toNat / 16), Text.Hexadecimal.digit c.toNat]) ∨
    (c ≠ '"' ∧ c ≠ '\\' ∧ 0x20 ≤ c.toNat ∧ spelled c = .char c ∧ escape c = [c]) := by
  fun_cases escape c
  case case1 | case2 | case3 | case4 | case5 | case6 | case7 =>
    subst c
    exact .inl ⟨_, rfl, rfl, rfl⟩
  case case8 control => exact .inr (.inl ⟨control, if_pos ⟨control, by simp [*]⟩, rfl⟩)
  case case9 quote backslash _ _ _ _ _ printed =>
    exact .inr (.inr ⟨quote, backslash, Nat.le_of_not_lt printed, if_neg fun h => printed h.1, rfl⟩)

theorem stringRest_escape (c : Char) (cs : List Char) :
    stringRest (escape c ++ cs) = (stringRest cs).map fun (s, rest) => (spelled c :: s, rest) := by
  rcases escape_cases c with
    ⟨e, he, short, hs⟩ | ⟨control, hs, he⟩ | ⟨quote, backslash, printed, hs, he⟩
  · rw [he, hs]
    exact stringRest_short short cs
  · rw [he, hs]
    exact stringRest_unit (unit?_digits control) cs
  · rw [he, hs]
    exact stringRest_char quote backslash printed cs

theorem stringRest_written (cs rest : List Char) :
    stringRest (cs.flatMap escape ++ '"' :: rest) = some (cs.map spelled, rest) := by
  induction cs with
  | nil => rw [List.flatMap_nil, List.nil_append, stringRest, List.map_nil]
  | cons c cs ih => rw [List.flatMap_cons, List.append_assoc, stringRest_escape, ih]; rfl

theorem join_unit {u : Nat} (h : u < 0xD800) (s : List Spelled) :
    join (.unit u :: s) = (join s).map (Char.ofNat u :: ·) := by
  have high : isHigh u = false := by simp [isHigh]; omega
  have low : isLow u = false := by simp [isLow]; omega
  cases s with
  | nil => simp [join, high, low]
  | cons x s => cases x <;> simp [join, high, low]

theorem join_spelled (cs : List Char) : join (cs.map spelled) = some cs := by
  induction cs with
  | nil => rfl
  | cons c cs ih =>
    rw [List.map_cons, spelled]
    split
    · rename_i control
      rw [join_unit (by omega), ih, Char.ofNat_toNat]
      rfl
    · rw [join, ih]
      rfl

theorem literal_none : literal none = ['"', '\\', 'u', 'd', '8', '0', '0', '"'] := rfl

theorem literal_some (s : String) :
    literal (some s) = '"' :: (s.toList.flatMap escape ++ ['"']) := rfl

theorem stringRest_literal (s : Option String) (rest : List Char) :
    ∃ units cs, literal s = '"' :: cs ∧ stringRest (cs ++ rest) = some (units, rest) ∧
      (join units).map String.ofList = s := by
  cases s with
  | none =>
    have lone : unit? 'd' '8' '0' '0' = some 0xD800 := by decide
    refine ⟨[.unit 0xD800], _, literal_none, ?_, rfl⟩
    simp only [List.cons_append, List.nil_append]
    rw [stringRest_unit lone, stringRest]
    rfl
  | some s =>
    refine ⟨s.toList.map spelled, _, literal_some s, ?_, ?_⟩
    · rw [List.append_assoc]
      exact stringRest_written s.toList rest
    · rw [join_spelled, Option.map_some, String.ofList_toList]

def Token.isBare : Token → Bool
  | .null | .bool _ | .int _ | .real _ => true
  | _ => false

def Token.isMark : Token → Bool
  | .openArr | .closeArr | .openObj | .closeObj | .comma | .colon => true
  | _ => false

def Token.isReal : Token → Bool
  | .real _ => true
  | _ => false

def isPart (c : Char) : Bool := isNumberPart c || c.isAlpha

def Delimited (cs : List Char) : Prop := ∀ c ∈ cs.head?, isPart c = false

theorem span_delimited {p : Char → Bool} (cs rest : List Char) (all : ∀ c ∈ cs, p c = true)
    (stop : ∀ c ∈ rest.head?, p c = false) :
    (cs ++ rest).takeWhile p = cs ∧ (cs ++ rest).dropWhile p = rest := by
  have taken : rest.takeWhile p = [] := by
    cases rest with
    | nil => rfl
    | cons c rest => simp [stop c rfl]
  have dropped : rest.dropWhile p = rest := by
    cases rest with
    | nil => rfl
    | cons c rest => simp [stop c rfl]
  rw [List.takeWhile_append_of_pos all, List.dropWhile_append_of_pos all, taken, dropped,
    List.append_nil]
  exact ⟨rfl, rfl⟩

theorem digits_whole (n : Nat) :
    (Text.Decimal.digits n).takeWhile Char.isDigit = Text.Decimal.digits n ∧
      (Text.Decimal.digits n).dropWhile Char.isDigit = [] ∧
      ¬((Text.Decimal.digits n).head? = some '0' ∧ (Text.Decimal.digits n).length ≠ 1) := by
  have all : ∀ c ∈ Text.Decimal.digits n, c.isDigit = true :=
    fun c => Text.Decimal.isDigit_of_mem_digits
  obtain ⟨taken, dropped⟩ := span_delimited _ [] all nofun
  rw [List.append_nil] at taken dropped
  refine ⟨taken, dropped, ?_⟩
  rintro ⟨zero, long⟩
  rcases Nat.eq_zero_or_pos n with rfl | pos
  · simp [Text.Decimal.digits] at long
  · exact Text.Decimal.head?_digits_ne_zero pos zero

theorem number?_intText (n : Int) : number? (Text.Decimal.intText n).toList = some (.int n) := by
  cases n with
  | ofNat n =>
    obtain ⟨taken, dropped, whole⟩ := digits_whole n
    have sign : (Text.Decimal.digits n).head? ≠ some '-' := by
      intro h
      exact absurd (Text.Decimal.isDigit_of_mem_digits (List.mem_of_head? h)) (by decide)
    simp [Text.Decimal.intText, Text.Decimal.text, number?, sign, taken, dropped, whole, isTail,
      Text.Decimal.digits_ne_nil, Text.Decimal.value_digits]
  | negSucc n =>
    obtain ⟨taken, dropped, whole⟩ := digits_whole (n + 1)
    simp [Text.Decimal.intText, Text.Decimal.text, number?, taken, dropped, whole, isTail,
      Text.Decimal.digits_ne_nil, Text.Decimal.value_digits]
    omega

theorem intText_parts (n : Int) : ∀ c ∈ (Text.Decimal.intText n).toList, isNumberPart c = true := by
  have digit (m : Nat) : ∀ c ∈ Text.Decimal.digits m, isNumberPart c = true := by
    intro c hc
    simp [isNumberPart, Text.Decimal.isDigit_of_mem_digits hc]
  cases n with
  | ofNat n => simpa [Text.Decimal.intText, Text.Decimal.text] using digit n
  | negSucc n =>
    intro c hc
    simp only [Text.Decimal.intText, Text.Decimal.text, String.toList_append, List.mem_append,
      String.toList_ofList] at hc
    rcases hc with sign | hc
    · rw [List.mem_singleton.mp sign]
      rfl
    · exact digit _ c hc

theorem lex_space {c : Char} (h : isSpace c = true) (cs : List Char) : lex (c :: cs) = lex cs := by
  rw [lex, if_pos h]

theorem lex_next {c : Char} {cs rest : List Char} {t : Token} (space : isSpace c = false)
    (h : next c cs = some (t, rest)) : lex (c :: cs) = (lex rest).map (t :: ·) := by
  rw [lex, if_neg (by simp [space])]
  split
  · simp_all
  · simp_all

theorem mark?_part {c : Char} (h : isPart c = true) : mark? c = none := by
  fun_cases mark? c
  case case1 | case2 | case3 | case4 | case5 | case6 =>
    subst c
    revert h
    decide
  case case7 => rfl

theorem quote_not_part {c : Char} (h : isPart c = true) : c ≠ '"' := by
  rintro rfl
  revert h
  decide

theorem part_of_space {c : Char} (h : isSpace c = true) : isPart c = false := by
  simp only [isSpace, Bool.or_eq_true, decide_eq_true_eq] at h
  rcases h with ((rfl | rfl) | rfl) | rfl <;> decide

theorem space_of_part {c : Char} (h : isPart c = true) : isSpace c = false := by
  cases hs : isSpace c with
  | false => rfl
  | true => rw [part_of_space hs] at h; cases h

theorem lex_number {c : Char} {cs rest : List Char} {t : Token}
    (parts : ∀ d ∈ c :: cs, isNumberPart d = true) (number : number? (c :: cs) = some t)
    (stop : Delimited rest) : lex (c :: cs ++ rest) = (lex rest).map (t :: ·) := by
  have first := parts c (by simp)
  have part : isPart c = true := by simp [isPart, first]
  obtain ⟨taken, dropped⟩ := span_delimited cs rest
    (fun d hd => parts d (List.mem_cons_of_mem c hd))
    (fun d hd => (Bool.or_eq_false_iff.1 (stop d hd)).1)
  rw [List.cons_append]
  apply lex_next (space_of_part part)
  rw [next, mark?_part part]
  simp only [if_neg (quote_not_part part), if_pos first, taken, dropped, number, Option.map_some]

theorem lex_word {c : Char} {cs rest : List Char} {t : Token} (first : isNumberPart c = false)
    (letters : ∀ d ∈ c :: cs, d.isAlpha = true) (word : word? (c :: cs) = some t)
    (stop : Delimited rest) : lex (c :: cs ++ rest) = (lex rest).map (t :: ·) := by
  have part : isPart c = true := by simp [isPart, letters c (by simp)]
  obtain ⟨taken, dropped⟩ := span_delimited cs rest
    (fun d hd => letters d (List.mem_cons_of_mem c hd))
    (fun d hd => (Bool.or_eq_false_iff.1 (stop d hd)).2)
  rw [List.cons_append]
  apply lex_next (space_of_part part)
  rw [next, mark?_part part]
  simp only [if_neg (quote_not_part part), first, Bool.false_eq_true, if_false, taken, dropped,
    word, Option.map_some]

theorem lex_literal (s : Option String) (rest : List Char) :
    lex (literal s ++ rest) = (lex rest).map (.text s :: ·) := by
  obtain ⟨units, cs, written, read, joined⟩ := stringRest_literal s rest
  rw [written]
  apply lex_next rfl
  simp [next, mark?, read, joined]

theorem lex_spelling {t : Token} (whole : t.isReal = false) {rest : List Char}
    (stop : t.isBare = true → Delimited rest) :
    lex (t.spelling ++ rest) = (lex rest).map (t :: ·) := by
  cases t with
  | openArr | closeArr | openObj | closeObj | comma | colon => exact lex_next rfl rfl
  | null => exact lex_word rfl (List.all_eq_true.1 rfl) rfl (stop rfl)
  | bool b => cases b <;> exact lex_word rfl (List.all_eq_true.1 rfl) rfl (stop rfl)
  | int n =>
    have number := number?_intText n
    have parts := intText_parts n
    rw [Token.spelling]
    cases hn : (Text.Decimal.intText n).toList with
    | nil =>
      rw [hn] at number
      cases number
    | cons c cs =>
      rw [hn] at number parts
      exact lex_number parts number (stop rfl)
  | real l => cases whole
  | text s => exact lex_literal s rest

theorem delimited_mark {t : Token} (h : t.isMark = true) (cs : List Char) :
    Delimited (t.spelling ++ cs) := by
  intro c hc
  cases t <;> cases h <;> cases hc <;> decide

/-- The text spells the tokens, with white space anywhere between them. -/
inductive Spells : List Token → List Char → Prop
  | nil : Spells [] []
  | space {c : Char} {ts : List Token} {cs : List Char} (blank : isSpace c = true)
    (later : Spells ts cs) : Spells ts (c :: cs)
  | token {t : Token} {ts : List Token} {cs : List Char} (whole : t.isReal = false)
    (stop : t.isBare = true → Delimited cs) (later : Spells ts cs) :
    Spells (t :: ts) (t.spelling ++ cs)

namespace Spells

variable {ts : List Token} {cs : List Char}

theorem lex_eq (h : Spells ts cs) : lex cs = some ts := by
  induction h with
  | nil => rw [lex]
  | space blank _ ih => rw [lex_space blank, ih]
  | token whole stop _ ih => rw [lex_spelling whole stop, ih, Option.map_some]

theorem spaces (h : Spells ts cs) {gap : List Char} (blank : ∀ c ∈ gap, isSpace c = true) :
    Spells ts (gap ++ cs) := by
  induction gap with
  | nil => exact h
  | cons c gap ih =>
    exact .space (blank c (by simp)) (ih fun d hd => blank d (List.mem_cons_of_mem c hd))

theorem delimited (h : Spells ts cs) (marked : ∀ t ∈ ts.head?, t.isMark = true) :
    Delimited cs := by
  cases h with
  | nil => nofun
  | space blank later =>
    rintro d ⟨⟩
    exact part_of_space blank
  | token whole stop later => exact delimited_mark (marked _ rfl) _

end Spells

end Json

end SemanticHighlight
