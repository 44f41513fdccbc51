import SemanticHighlight.Json.Basic

/-!
# Tokens of a JSON text

`lex` cuts a text into tokens: white space between tokens is the space, tab, line feed and carriage
return; a number is a whole run of the characters numbers are made of, a word a whole run of
letters. A string is first read escape by escape, and then its code units are joined.
-/

set_option autoImplicit false

namespace SemanticHighlight.Json

def isSpace (c : Char) : Bool := c = ' ' || c = '\n' || c = '\t' || c = '\r'

/-- What a character or an escape of a string stands for. -/
inductive Spelled where
  | char (c : Char)
  | unit (u : Nat)

def hexValue? (c : Char) : Option Nat :=
  if c.isDigit then some (c.toNat - 48)
  else if 'a' ≤ c ∧ c ≤ 'f' then some (c.toNat - 87)
  else if 'A' ≤ c ∧ c ≤ 'F' then some (c.toNat - 55)
  else none

def unit? (a b c d : Char) : Option Nat :=
  match hexValue? a, hexValue? b, hexValue? c, hexValue? d with
  | some a, some b, some c, some d => some (((a * 16 + b) * 16 + c) * 16 + d)
  | _, _, _, _ => none

def shortEscape? (c : Char) : Option Char :=
  if c = '"' ∨ c = '\\' ∨ c = '/' then some c
  else if c = 'b' then some '\x08'
  else if c = 'f' then some '\x0C'
  else if c = 'n' then some '\n'
  else if c = 'r' then some '\r'
  else if c = 't' then some '\t'
  else none

/-- The rest of a string after its opening quote, and what follows its closing quote. -/
def stringRest : List Char → Option (List Spelled × List Char)
  | '"' :: cs => some ([], cs)
  | '\\' :: 'u' :: a :: b :: c :: d :: cs =>
    match unit? a b c d, stringRest cs with
    | some u, some (s, rest) => some (.unit u :: s, rest)
    | _, _ => none
  | '\\' :: e :: cs =>
    match shortEscape? e, stringRest cs with
    | some c, some (s, rest) => some (.char c :: s, rest)
    | _, _ => none
  | c :: cs =>
    if c = '\\' ∨ c.toNat < 0x20 then none
    else match stringRest cs with
      | some (s, rest) => some (.char c :: s, rest)
      | none => none
  | [] => none

def isHigh (u : Nat) : Bool := 0xD800 ≤ u && u < 0xDC00
def isLow (u : Nat) : Bool := 0xDC00 ≤ u && u < 0xE000

/-- The text that code units and characters spell; none if half of a surrogate pair stands alone. -/
def join : List Spelled → Option (List Char)
  | [] => some []
  | .char c :: s => (join s).map (c :: ·)
  | .unit u :: .unit v :: s =>
    if isHigh u then
      if isLow v then
        (join s).map (Char.ofNat (0x10000 + (u - 0xD800) * 0x400 + (v - 0xDC00)) :: ·)
      else none
    else if isLow u then none
    else (join (.unit v :: s)).map (Char.ofNat u :: ·)
  | .unit u :: s => if isHigh u || isLow u then none else (join s).map (Char.ofNat u :: ·)

def isNumberPart (c : Char) : Bool :=
  c.isDigit || c = '-' || c = '+' || c = '.' || c = 'e' || c = 'E'

def isExponent : List Char → Bool
  | e :: cs =>
    (e = 'e' || e = 'E') &&
      (let ds := if cs.head? = some '+' ∨ cs.head? = some '-' then cs.tail else cs
       ds ≠ [] && ds.all Char.isDigit)
  | [] => false

/-- What may follow the digits before the point. -/
def isTail (cs : List Char) : Bool :=
  match cs with
  | [] => true
  | '.' :: cs =>
    let ds := cs.takeWhile Char.isDigit
    let rest := cs.dropWhile Char.isDigit
    ds ≠ [] && (rest = [] || isExponent rest)
  | cs => isExponent cs

def number? (cs : List Char) : Option Token :=
  let negative := cs.head? = some '-'
  let body := if negative then cs.tail else cs
  let whole := body.takeWhile Char.isDigit
  let rest := body.dropWhile Char.isDigit
  let n := Text.Decimal.value whole
  if whole = [] ∨ (whole.head? = some '0' ∧ whole.length ≠ 1) ∨ ¬ isTail rest then none
  else if rest ≠ [] ∨ (negative ∧ n = 0) then some (.real (String.ofList cs))
  else some (.int (if negative then -n else n))

def word? (cs : List Char) : Option Token :=
  if cs = "null".toList then some .null
  else if cs = "true".toList then some (.bool true)
  else if cs = "false".toList then some (.bool false)
  else none

def mark? (c : Char) : Option Token :=
  if c = '[' then some .openArr
  else if c = ']' then some .closeArr
  else if c = '\x7b' then some .openObj
  else if c = '\x7d' then some .closeObj
  else if c = ',' then some .comma
  else if c = ':' then some .colon
  else none

def next (c : Char) (cs : List Char) : Option (Token × List Char) :=
  match mark? c with
  | some t => some (t, cs)
  | none =>
    if c = '"' then
      (stringRest cs).map fun (s, rest) => (.text ((join s).map String.ofList), rest)
    else if isNumberPart c then
      (number? (c :: cs.takeWhile isNumberPart)).map (·, cs.dropWhile isNumberPart)
    else
      (word? (c :: cs.takeWhile Char.isAlpha)).map (·, cs.dropWhile Char.isAlpha)

theorem length_stringRest {cs : List Char} {s : List Spelled} {rest : List Char}
    (h : stringRest cs = some (s, rest)) : rest.length < cs.length := by
  fun_induction stringRest cs generalizing s rest with
  | case1 => grind
  | case2 a b c d cs u s' rest' hs _ ih =>
    simp only [Option.some.injEq, Prod.mk.injEq] at h
    have := ih hs
    simp only [List.length_cons, ← h.2]
    omega
  | case3 => cases h
  | case4 => grind
  | case5 => cases h
  | case6 => cases h
  | case7 => grind
  | case8 => cases h
  | case9 => cases h

theorem length_next {c : Char} {cs : List Char} {t : Token} {rest : List Char}
    (h : next c cs = some (t, rest)) : rest.length ≤ cs.length := by
  unfold next at h
  split at h
  · simp only [Option.some.injEq, Prod.mk.injEq] at h
    exact h.2 ▸ Nat.le_refl _
  · split at h
    · obtain ⟨⟨s, r⟩, hs, hr⟩ := Option.map_eq_some_iff.1 h
      simp only [Prod.mk.injEq] at hr
      exact hr.2 ▸ Nat.le_of_lt (length_stringRest hs)
    · split at h <;>
      · obtain ⟨_, _, hr⟩ := Option.map_eq_some_iff.1 h
        simp only [Prod.mk.injEq] at hr
        exact hr.2 ▸ (List.dropWhile_suffix _).length_le

def lex : List Char → Option (List Token)
  | [] => some []
  | c :: cs =>
    if isSpace c then lex cs
    else match _h : next c cs with
      | none => none
      | some (t, rest) => (lex rest).map (t :: ·)
termination_by cs => cs.length
decreasing_by
  · simp
  · exact Nat.lt_of_le_of_lt (length_next _h) (Nat.lt_succ_self _)

end SemanticHighlight.Json
