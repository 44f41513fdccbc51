import Mathlib.Data.List.TakeWhile
import SemanticHighlight.Proofs.Json.RoundTrip

/-!
# What the reader accepts

A value is read from its tokens and from no others, and a token from the characters that write it.
So a text is read as a value if and only if it writes the tokens of the value one after the other,
with any white space around them. How much white space there is makes no difference.

The state of the reader determines the tokens that led to it, so nothing but the tokens of a value
leads to the value. A token can have several words, for a character of a string may be escaped or
not. A literal with a fraction or an exponent has only itself.
-/

set_option autoImplicit false

namespace SemanticHighlight.Json

def closedMember (m : Member) : List Token := .text m.1 :: .colon :: m.2.tokens ++ [.comma]

def Open.read : Open → List Token
  | .arr vs => .openArr :: vs.reverse.flatMap fun v => v.tokens ++ [.comma]
  | .obj ms k => .openObj :: ms.reverse.flatMap closedMember ++ [.text k, .colon]

def Expecting.read : Expecting → List Token
  | .value | .firstItem => []
  | .firstKey => [.openObj]
  | .key ms => .openObj :: ms.reverse.flatMap closedMember
  | .colon ms k => .openObj :: ms.reverse.flatMap closedMember ++ [.text k]
  | .afterValue v => v.tokens

def stackRead : List Open → List Token
  | [] => []
  | o :: stack => stackRead stack ++ o.read

def Reading.read (r : Reading) : List Token := stackRead r.stack ++ r.expecting.read

theorem itemTokens_concat (vs : List Json) (v : Json) :
    itemTokens (vs ++ [v]) = (vs.flatMap fun v => v.tokens ++ [.comma]) ++ v.tokens := by
  induction vs with
  | nil => exact List.append_nil _
  | cons w vs ih =>
    have later : moreTokens (vs ++ [v]) = .comma :: itemTokens (vs ++ [v]) := by
      cases vs <;> rfl
    rw [List.cons_append, itemTokens, later, ih]
    simp

theorem memberTokens_concat (ms : List Member) (m : Member) :
    memberTokens (ms ++ [m]) = ms.flatMap closedMember ++ .text m.1 :: .colon :: m.2.tokens := by
  induction ms with
  | nil => exact List.append_nil _
  | cons n ms ih =>
    have later : moreMemberTokens (ms ++ [m]) = .comma :: memberTokens (ms ++ [m]) := by
      cases ms <;> rfl
    rw [List.cons_append, memberTokens, later, ih]
    simp [closedMember]

theorem beginValue_read {stack : List Open} {t : Token} {r : Reading}
    (h : beginValue stack t = some r) : r.read = stackRead stack ++ [t] := by
  cases t <;> cases h <;> simp [Reading.read, stackRead, Open.read, Expecting.read, tokens]

theorem step_read {r r' : Reading} {t : Token} (h : step r t = some r') :
    r'.read = r.read ++ [t] := by
  unfold step at h
  split at h
  -- where a value may begin, the token may open a container; where one closes, its last item or
  -- member goes to the ones before it
  case h_1 stack t => simpa [Reading.read, Expecting.read] using beginValue_read h
  case h_3 stack t _ => simpa [Reading.read, Expecting.read] using beginValue_read h
  case h_10 stack vs v =>
    cases h
    simp [Reading.read, stackRead, Open.read, Expecting.read, tokens, itemTokens_concat]
  case h_11 stack ms k v =>
    cases h
    simp [Reading.read, stackRead, Open.read, Expecting.read, tokens, memberTokens_concat]
  case h_12 => cases h
  all_goals
    cases h
    simp [Reading.read, stackRead, Open.read, Expecting.read, tokens, itemTokens, memberTokens,
      closedMember]

theorem steps_read {r r' : Reading} {ts : List Token} (h : steps r ts = some r') :
    r'.read = r.read ++ ts := by
  induction ts generalizing r with
  | nil =>
    cases h
    exact (List.append_nil _).symm
  | cons t ts ih =>
    obtain ⟨r₁, first, later⟩ := Option.bind_eq_some_iff.mp h
    rw [ih later, step_read first, List.append_assoc, List.singleton_append]

theorem ofTokens?_eq_some_iff {ts : List Token} {v : Json} :
    ofTokens? ts = some v ↔ ts = v.tokens := by
  constructor
  · intro h
    obtain ⟨⟨stack, expecting⟩, run, result⟩ := Option.bind_eq_some_iff.mp h
    have read := steps_read run
    unfold Reading.result? at result
    split at result
    · rename_i w same
      cases same
      cases result
      simpa [Reading.read, Expecting.read, stackRead] using read.symm
    · cases result
  · rintro rfl
    exact ofTokens?_tokens v

inductive Token.Written : Token → List Char → Prop
  | mark {c : Char} {t : Token} (mark : mark? c = some t) : Written t [c]
  | text {cs : List Char} {units : List Spelled} (closed : stringRest cs = some (units, [])) :
    Written (.text ((join units).map String.ofList)) ('"' :: cs)
  | number {c : Char} {cs : List Char} {t : Token} (parts : ∀ d ∈ c :: cs, isNumberPart d = true)
    (number : number? (c :: cs) = some t) : Written t (c :: cs)
  | word {cs : List Char} {t : Token} (word : word? cs = some t) : Written t cs

theorem stringRest_split {cs rest : List Char} {units : List Spelled}
    (h : stringRest cs = some (units, rest)) :
    ∃ inner, cs = inner ++ rest ∧ ∀ more, stringRest (inner ++ more) = some (units, more) := by
  fun_induction stringRest cs generalizing units rest with
  | case1 cs =>
    cases h
    exact ⟨['"'], rfl, fun more => rfl⟩
  | case2 a b c d cs u s rest read unit ih =>
    cases h
    obtain ⟨inner, rfl, again⟩ := ih read
    refine ⟨'\\' :: 'u' :: a :: b :: c :: d :: inner, rfl, fun more => ?_⟩
    simp only [List.cons_append]
    rw [stringRest_unit unit, again]
    rfl
  | case4 e cs _ c s rest read short ih =>
    cases h
    obtain ⟨inner, rfl, again⟩ := ih read
    refine ⟨'\\' :: e :: inner, rfl, fun more => ?_⟩
    simp only [List.cons_append]
    rw [stringRest_short short, again]
    rfl
  | case7 c cs quote _ _ plain s rest read ih =>
    cases h
    obtain ⟨inner, rfl, again⟩ := ih read
    rw [not_or, Nat.not_lt] at plain
    refine ⟨c :: inner, rfl, fun more => ?_⟩
    rw [List.cons_append, stringRest_char quote plain.1 plain.2, again]
    rfl
  | case3 | case5 | case6 | case8 | case9 => cases h

theorem stringRest_append {cs : List Char} {units : List Spelled}
    (h : stringRest cs = some (units, [])) (more : List Char) :
    stringRest (cs ++ more) = some (units, more) := by
  obtain ⟨inner, rfl, again⟩ := stringRest_split h
  rw [List.append_nil]
  exact again more

theorem not_space_of_mark {c : Char} {t : Token} (h : mark? c = some t) : isSpace c = false := by
  cases hs : isSpace c with
  | false => rfl
  | true =>
    simp only [isSpace, Bool.or_eq_true, decide_eq_true_eq] at hs
    rcases hs with ((rfl | rfl) | rfl) | rfl <;> cases h

theorem isMark_of_isBare {t : Token} (h : t.isBare = true) : t.isMark = false := by
  cases t <;> cases h <;> rfl

theorem isBare_of_number? {cs : List Char} {t : Token} (h : number? cs = some t) :
    t.isBare = true := by
  simp only [number?] at h
  repeat' split at h
  all_goals cases h <;> rfl

theorem letters_of_word? {cs : List Char} {t : Token} (h : word? cs = some t) :
    ∃ c later, cs = c :: later ∧ isNumberPart c = false ∧ ∀ d ∈ cs, d.isAlpha = true := by
  unfold word? at h
  split at h
  · subst cs
    exact ⟨'n', _, rfl, rfl, List.all_eq_true.1 rfl⟩
  split at h
  · subst cs
    exact ⟨'t', _, rfl, rfl, List.all_eq_true.1 rfl⟩
  split at h
  · subst cs
    exact ⟨'f', _, rfl, rfl, List.all_eq_true.1 rfl⟩
  · cases h

theorem isBare_of_word? {cs : List Char} {t : Token} (h : word? cs = some t) :
    t.isBare = true := by
  unfold word? at h
  repeat' split at h
  all_goals cases h <;> rfl

namespace Token.Written

variable {t : Token} {w : List Char}

theorem lex_eq (h : t.Written w) {rest : List Char} (stop : t.isBare = true → Delimited rest) :
    lex (w ++ rest) = (lex rest).map (t :: ·) := by
  cases h with
  | mark mark =>
    apply lex_next (not_space_of_mark mark)
    rw [next, mark]
    rfl
  | text closed =>
    apply lex_next rfl
    rw [next]
    simp [mark?, stringRest_append closed]
  | number parts number => exact lex_number parts number (stop (isBare_of_number? number))
  | word word =>
    obtain ⟨c, later, rfl, first, letters⟩ := letters_of_word? word
    exact lex_word first letters word (stop (isBare_of_word? word))

theorem delimited (h : t.Written w) (mark : t.isMark = true) (rest : List Char) :
    Delimited (w ++ rest) := by
  cases h with
  | mark known =>
    rintro d ⟨⟩
    cases part : isPart _ with
    | false => rfl
    | true => cases known.symm.trans (mark?_part part)
  | text closed => cases mark
  | number parts number => cases mark.symm.trans (isMark_of_isBare (isBare_of_number? number))
  | word word => cases mark.symm.trans (isMark_of_isBare (isBare_of_word? word))

end Token.Written

theorem written_of_next {c : Char} {cs rest : List Char} {t : Token}
    (h : next c cs = some (t, rest)) : ∃ w, c :: cs = w ++ rest ∧ t.Written w := by
  have split (p : Char → Bool) : c :: cs = c :: cs.takeWhile p ++ cs.dropWhile p := by
    rw [List.cons_append, List.takeWhile_append_dropWhile]
  unfold next at h
  split at h
  · rename_i mark
    cases h
    exact ⟨[c], rfl, .mark mark⟩
  split at h
  · rename_i quote
    obtain ⟨⟨units, rest⟩, read, same⟩ := Option.map_eq_some_iff.mp h
    cases same
    obtain ⟨inner, rfl, again⟩ := stringRest_split read
    refine ⟨c :: inner, rfl, ?_⟩
    rw [quote]
    exact .text (List.append_nil inner ▸ again [])
  split at h
  · rename_i first
    obtain ⟨t, number, same⟩ := Option.map_eq_some_iff.mp h
    cases same
    refine ⟨_, split isNumberPart, .number (fun d hd => ?_) number⟩
    rcases List.mem_cons.mp hd with rfl | hd
    · exact first
    · exact List.mem_takeWhile_imp hd
  · obtain ⟨t, word, same⟩ := Option.map_eq_some_iff.mp h
    cases same
    exact ⟨_, split Char.isAlpha, .word word⟩

/-- The text consists of words that write the tokens, with white space anywhere between them. -/
inductive Lexed : List Token → List Char → Prop
  | nil : Lexed [] []
  | space {c : Char} {ts : List Token} {cs : List Char} (blank : isSpace c = true)
    (later : Lexed ts cs) : Lexed ts (c :: cs)
  | token {t : Token} {w : List Char} {ts : List Token} {cs : List Char} (written : t.Written w)
    (stop : t.isBare = true → Delimited cs) (later : Lexed ts cs) : Lexed (t :: ts) (w ++ cs)

namespace Lexed

variable {ts : List Token} {cs : List Char}

theorem lex_eq (h : Lexed ts cs) : lex cs = some ts := by
  induction h with
  | nil => rw [lex]
  | space blank _ ih => rw [lex_space blank, ih]
  | token written stop _ ih => rw [written.lex_eq stop, ih, Option.map_some]

theorem delimited (h : Lexed ts cs) (marked : ∀ t ∈ ts.head?, t.isMark = true) :
    Delimited cs := by
  cases h with
  | nil => nofun
  | space blank later =>
    rintro d ⟨⟩
    exact part_of_space blank
  | token written stop later => exact written.delimited (marked _ rfl) _

theorem cons {t : Token} {w : List Char} (h : Lexed ts cs) (written : t.Written w)
    (separated : Separated (t :: ts)) : Lexed (t :: ts) (w ++ cs) :=
  .token written (fun bare => h.delimited (separated.1 bare)) h

end Lexed

theorem lexed_of_lex {ts : List Token} {cs : List Char} (h : lex cs = some ts)
    (separated : Separated ts) : Lexed ts cs := by
  fun_induction lex cs generalizing ts with
  | case1 =>
    cases h
    exact .nil
  | case2 c cs space ih => exact .space space (ih h separated)
  | case3 => cases h
  | case4 c cs _ t rest read ih =>
    obtain ⟨later, hlater, rfl⟩ := Option.map_eq_some_iff.mp h
    obtain ⟨w, split, written⟩ := written_of_next read
    rw [split]
    exact (ih hlater separated.2).cons written separated

def TextOf (v : Json) (cs : List Char) : Prop := Lexed v.tokens cs

/-- What is read is the value that the text writes; a text that writes no value is not read. -/
theorem read?_eq_some_iff {cs : List Char} {v : Json} : read? cs = some v ↔ v.TextOf cs := by
  constructor
  · intro h
    obtain ⟨ts, cut, read⟩ := Option.bind_eq_some_iff.mp h
    cases ofTokens?_eq_some_iff.mp read
    exact lexed_of_lex cut v.tokens_separated
  · intro h
    rw [read?, h.lex_eq, Option.bind_some, ofTokens?_tokens]

instance (v : Json) : Decidable v.Whole := inferInstanceAs (Decidable (∀ t ∈ v.tokens, _))

theorem textOf_compact {v : Json} (h : v.Whole) : v.TextOf v.compact :=
  read?_eq_some_iff.mp (read?_compact h)

/-- The second text has the words of the first one in the same order, whatever white space there is
between, before and after them. -/
inductive Respaced : List Char → List Char → Prop
  | nil : Respaced [] []
  | less {c : Char} {cs ds : List Char} (blank : isSpace c = true) (later : Respaced cs ds) :
    Respaced (c :: cs) ds
  | more {c : Char} {cs ds : List Char} (blank : isSpace c = true) (later : Respaced cs ds) :
    Respaced cs (c :: ds)
  | token {t : Token} {w cs ds : List Char} (written : t.Written w)
    (stop : t.isBare = true → Delimited cs) (later : Respaced cs ds) :
    Respaced (w ++ cs) (w ++ ds)

theorem Respaced.lexed {cs ds : List Char} (h : Respaced cs ds) :
    ∃ ts, lex cs = some ts ∧ (Separated ts → Lexed ts ds) := by
  induction h with
  | nil => exact ⟨[], by rw [lex], fun _ => .nil⟩
  | less blank _ ih => rwa [lex_space blank]
  | more blank _ ih =>
    obtain ⟨ts, cut, lexed⟩ := ih
    exact ⟨ts, cut, fun separated => .space blank (lexed separated)⟩
  | token written stop _ ih =>
    obtain ⟨ts, cut, lexed⟩ := ih
    refine ⟨_ :: ts, ?_, fun separated => (lexed separated.2).cons written separated⟩
    rw [written.lex_eq stop, cut, Option.map_some]

theorem Respaced.textOf {cs ds : List Char} (h : Respaced cs ds) {v : Json} (text : v.TextOf cs) :
    v.TextOf ds := by
  obtain ⟨ts, cut, lexed⟩ := h.lexed
  cases cut.symm.trans text.lex_eq
  exact lexed v.tokens_separated

end SemanticHighlight.Json
