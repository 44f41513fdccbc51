import SemanticHighlight.Proofs.Text.Utf8
import SemanticHighlight.Proofs.Tokenizer.Words

/-!
# Words by position

A line as its bytes, read from position to position: where a byte can begin a word, the run of word
bytes from there is cut out, what follows it is looked at, and the reading goes on behind it. A cut is
made only inside the line and between two characters; `scan?` fails if any cut is not. It never does,
and it finds the words of the line.
-/

set_option autoImplicit false

namespace SemanticHighlight.Tokenizer

open Text (encoded byteLength)

def startsByte (b : UInt8) : Bool := 65 ≤ b && b ≤ 90 || 97 ≤ b && b ≤ 122 || b = 95

def continuesByte (b : UInt8) : Bool := startsByte b || 48 ≤ b && b ≤ 57

def runEnd (bs : Bytes) (i : Nat) : Nat :=
  if h : i < bs.length then
    if continuesByte bs[i] then runEnd bs (i + 1) else i
  else i
termination_by bs.length - i

def IsBoundary (bs : Bytes) (i : Nat) : Prop :=
  i = bs.length ∨ ∃ b, bs[i]? = some b ∧ (b < 128 ∨ 192 ≤ b)

instance (bs : Bytes) (i : Nat) : Decidable (IsBoundary bs i) :=
  decidable_of_iff (i = bs.length ∨ bs[i]?.any (fun b => b < 128 || 192 ≤ b) = true)
    (by cases hb : bs[i]? <;> simp [IsBoundary, hb])

/-- The bytes between two positions, if they are in order and each is between two characters. -/
def slice? (bs : Bytes) (start stop : Nat) : Option Bytes :=
  if start ≤ stop ∧ IsBoundary bs start ∧ IsBoundary bs stop then some ((bs.take stop).drop start)
  else none

theorem le_runEnd (bs : Bytes) (i : Nat) : i ≤ runEnd bs i := by
  fun_induction runEnd bs i <;> omega

theorem lt_runEnd {bs : Bytes} {i : Nat} (h : i < bs.length) (starts : startsByte bs[i] = true) :
    i < runEnd bs i := by
  have continues : continuesByte bs[i] = true := by rw [continuesByte, starts, Bool.true_or]
  rw [runEnd, dif_pos h, if_pos continues]
  exact le_runEnd bs (i + 1)

structure Found where
  start : Nat
  stop : Nat
  name : Bytes
  rest : Bytes
  deriving DecidableEq, Repr

def scan? (bs : Bytes) (i : Nat) : Option (List Found) :=
  if h : i < bs.length then
    if starts : startsByte bs[i] then
      match slice? bs i (runEnd bs i), slice? bs (runEnd bs i) bs.length, scan? bs (runEnd bs i) with
      | some name, some rest, some found => some (⟨i, runEnd bs i, name, rest⟩ :: found)
      | _, _, _ => none
    else scan? bs (i + 1)
  else some []
termination_by bs.length - i
decreasing_by
  · have := lt_runEnd h starts
    omega
  · omega

theorem startsByte_iff (b : UInt8) : startsByte b = true ↔
    65 ≤ b.toNat ∧ b.toNat ≤ 90 ∨ 97 ≤ b.toNat ∧ b.toNat ≤ 122 ∨ b.toNat = 95 := by
  simp [startsByte, UInt8.le_iff_toNat_le, ← UInt8.toNat_inj, or_assoc]

theorem continuesByte_iff (b : UInt8) : continuesByte b = true ↔
    65 ≤ b.toNat ∧ b.toNat ≤ 90 ∨ 97 ≤ b.toNat ∧ b.toNat ≤ 122 ∨ 48 ≤ b.toNat ∧ b.toNat ≤ 57 ∨
      b.toNat = 95 := by
  rw [continuesByte, Bool.or_eq_true, startsByte_iff]
  simp only [Bool.and_eq_true, decide_eq_true_eq, UInt8.le_iff_toNat_le, UInt8.reduceToNat]
  omega

theorem startsByte_eq {c : Char} {b : UInt8} (h : b ∈ String.utf8EncodeChar c) :
    startsByte b = startsWord c := by
  have code := Text.mem_encodeChar h
  rw [Bool.eq_iff_iff, startsByte_iff, starts_iff]
  omega

theorem continuesByte_eq {c : Char} {b : UInt8} (h : b ∈ String.utf8EncodeChar c) :
    continuesByte b = continuesWord c := by
  have code := Text.mem_encodeChar h
  rw [Bool.eq_iff_iff, continuesByte_iff, continues_iff]
  omega

theorem isBoundary_encoded (front cs : List Char) :
    IsBoundary (encoded front ++ encoded cs) (encoded front).length := by
  cases cs with
  | nil => exact .inl (by simp)
  | cons c cs =>
    obtain ⟨b, bs, leads, code⟩ := Text.encodeChar_leads c
    refine .inr ⟨b, by simp [leads], ?_⟩
    simpa [UInt8.lt_iff_toNat_lt, UInt8.le_iff_toNat_le] using code

theorem slice?_encoded (front text rest : List Char) :
    slice? (encoded front ++ (encoded text ++ encoded rest)) (encoded front).length
      ((encoded front).length + (encoded text).length) = some (encoded text) := by
  have start : IsBoundary (encoded front ++ (encoded text ++ encoded rest)) (encoded front).length := by
    simpa using isBoundary_encoded front (text ++ rest)
  have stop : IsBoundary (encoded front ++ (encoded text ++ encoded rest))
      ((encoded front).length + (encoded text).length) := by
    simpa using isBoundary_encoded (front ++ text) rest
  rw [slice?, if_pos ⟨Nat.le_add_right .., start, stop⟩, ← List.append_assoc,
    List.take_left' (List.length_append ..), List.drop_left]

theorem slice?_rest (front rest : List Char) :
    slice? (encoded front ++ encoded rest) (encoded front).length
      (encoded front ++ encoded rest).length = some (encoded rest) := by
  simpa using slice?_encoded front rest []

theorem getElem_front {pre rest : Bytes} {b : UInt8} (h : pre.length < (pre ++ b :: rest).length) :
    (pre ++ b :: rest)[pre.length] = b := by
  simp

theorem runEnd_run {run : Bytes} (pre : Bytes) {rest : Bytes}
    (continues : ∀ b ∈ run, continuesByte b = true)
    (ends : ∀ b, rest.head? = some b → continuesByte b = false) :
    runEnd (pre ++ (run ++ rest)) pre.length = pre.length + run.length := by
  induction run generalizing pre with
  | nil =>
    cases rest with
    | nil =>
      rw [runEnd, dif_neg (by simp)]
      rfl
    | cons b rest =>
      have other : ¬continuesByte b = true := by rw [ends b rfl]; decide
      rw [List.nil_append, runEnd, dif_pos (by simp), getElem_front, if_neg other]
      rfl
  | cons b run ih =>
    have next := ih (pre ++ [b]) fun c hc => continues c (List.mem_cons_of_mem b hc)
    rw [List.append_assoc, List.length_append] at next
    rw [List.cons_append, runEnd, dif_pos (by simp), getElem_front,
      if_pos (continues b List.mem_cons_self), List.length_cons, Nat.add_comm run.length,
      ← Nat.add_assoc]
    exact next

theorem scan?_skip {skip : Bytes} (pre rest : Bytes) (other : ∀ b ∈ skip, startsByte b = false) :
    scan? (pre ++ (skip ++ rest)) pre.length =
      scan? (pre ++ (skip ++ rest)) (pre.length + skip.length) := by
  induction skip generalizing pre with
  | nil => rfl
  | cons b skip ih =>
    have next := ih (pre ++ [b]) fun c hc => other c (List.mem_cons_of_mem b hc)
    rw [List.append_assoc, List.length_append] at next
    have here : ¬startsByte b = true := by rw [other b List.mem_cons_self]; decide
    rw [List.cons_append, scan?, dif_pos (by simp), dif_neg (by rw [getElem_front]; exact here)]
    rw [List.length_cons, Nat.add_comm skip.length, ← Nat.add_assoc]
    exact next

namespace Word.Spelled

variable {w : Word}

theorem startsByte_text (h : w.Spelled) :
    ∃ b bs, encoded w.text = b :: bs ∧ startsByte b = true := by
  obtain ⟨c, cs, text, starts⟩ := h.starts
  obtain ⟨b, bs, leads, -⟩ := Text.encodeChar_leads c
  refine ⟨b, bs ++ encoded cs, by rw [text, Text.encoded_cons, leads, List.cons_append], ?_⟩
  rw [startsByte_eq (leads ▸ List.mem_cons_self), starts]

theorem continuesByte_text (h : w.Spelled) : ∀ b ∈ encoded w.text, continuesByte b = true := by
  intro b hb
  obtain ⟨c, hc, hb⟩ := List.mem_flatMap.1 hb
  rw [continuesByte_eq hb, h.continues c hc]

theorem continuesByte_rest (h : w.Spelled) :
    ∀ b, (encoded w.rest).head? = some b → continuesByte b = false := by
  intro b hb
  cases rest : w.rest with
  | nil => rw [rest] at hb; cases hb
  | cons c cs =>
    obtain ⟨d, bs, leads, -⟩ := Text.encodeChar_leads c
    have first : d = b := by simpa [rest, leads] using hb
    subst first
    rw [continuesByte_eq (leads ▸ List.mem_cons_self), h.ends c (by rw [rest]; rfl)]

theorem scan?_eq (h : w.Spelled) (front : List Char) :
    scan? (encoded front ++ (encoded w.text ++ encoded w.rest)) (encoded front).length =
      (scan? (encoded front ++ (encoded w.text ++ encoded w.rest))
        ((encoded front).length + (encoded w.text).length)).map
        (⟨(encoded front).length, (encoded front).length + (encoded w.text).length,
          encoded w.text, encoded w.rest⟩ :: ·) := by
  obtain ⟨b, bs, text, starts⟩ := h.startsByte_text
  have stop := runEnd_run (encoded front) h.continuesByte_text h.continuesByte_rest
  have inside : (encoded front).length <
      (encoded front ++ (encoded w.text ++ encoded w.rest)).length := by simp [text]
  have begins : startsByte (encoded front ++ (encoded w.text ++ encoded w.rest))[(encoded front).length] =
      true := by simp [text, starts]
  have rest := slice?_rest (front ++ w.text) w.rest
  have length : (encoded front ++ encoded w.text).length =
      (encoded front).length + (encoded w.text).length := List.length_append
  rw [Text.encoded_append, List.append_assoc, length] at rest
  rw [scan?, dif_pos inside, dif_pos begins, stop, slice?_encoded, rest]
  cases scan? (encoded front ++ (encoded w.text ++ encoded w.rest))
    ((encoded front).length + (encoded w.text).length) <;> rfl

end Word.Spelled

def Word.found (w : Word) : Found := ⟨w.column, w.stop, encoded w.text, encoded w.rest⟩

theorem scan?_encoded (column : Nat) (before? : Option Char) (cs : List Char) :
    ∀ front, byteLength front = column →
      scan? (encoded front ++ encoded cs) (encoded front).length =
        some ((wordsFrom column before? cs).map Word.found) := by
  fun_induction wordsFrom column before? cs with
  | case1 =>
    intro front here
    rw [scan?, dif_neg (by simp)]
    rfl
  | case2 column before? c cs starts text rest ih =>
    intro front here
    have first := spelled_first column before? starts cs
    have whole : encoded (c :: cs) = encoded text ++ encoded rest := by
      rw [← Text.encoded_append, List.cons_append, List.takeWhile_append_dropWhile]
    have length : (encoded text).length = text.length := by
      rw [Text.length_encoded, byteLength_of_continues first.continues]
    have next := ih (front ++ text) (by
      rw [Text.byteLength_append, here, byteLength_of_continues first.continues])
    rw [Text.encoded_append, List.append_assoc, List.length_append] at next
    rw [whole, first.scan?_eq front, next, Text.length_encoded, here, length]
    rfl
  | case3 column before? c cs other ih =>
    intro front here
    have skip : ∀ b ∈ String.utf8EncodeChar c, startsByte b = false := by
      intro b hb
      rw [startsByte_eq hb]
      simpa using other
    have next := ih (front ++ [c]) (by rw [Text.byteLength_append, here]; simp [byteLength])
    rw [Text.encoded_cons, scan?_skip _ _ skip]
    simpa using next

/-- The scan reads every line to its end, never cuts outside it or inside a character, and finds its
words. -/
theorem scan?_line (line : List Char) :
    scan? (encoded line) 0 = some ((words line).map Word.found) :=
  scan?_encoded 0 none line [] rfl

end SemanticHighlight.Tokenizer
