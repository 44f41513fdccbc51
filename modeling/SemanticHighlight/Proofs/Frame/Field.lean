import Mathlib.Data.List.Induction
import SemanticHighlight.Proofs.Frame.Stream

/-!
# Length fields as numbers

The lengths that ten digits can write and the fields of ten digits stand in one-to-one
correspondence: each length has a field and each field a length, and of two lengths the smaller one
has the field that comes first when fields are compared byte by byte. The value of a field fits a
word of 64 bits, and so does all that is computed on the way to it.
-/

set_option autoImplicit false

namespace SemanticHighlight.Frame

theorem all_isDigitByte_iff {field : Bytes} :
    field.all isDigitByte = true ↔ ∀ b ∈ field, '0'.toNat ≤ b.toNat ∧ b.toNat ≤ '9'.toNat := by
  rw [List.all_eq_true]
  exact forall₂_congr fun _ _ => isDigitByte_iff

theorem decodeLength_succeeds_iff {field : Bytes} :
    (∃ n, decodeLength field = .ok n) ↔ field.all isDigitByte = true := by
  constructor
  · rintro ⟨n, decoded⟩
    exact (decodeLength_eq_ok_iff.mp decoded).1
  · intro digits
    exact ⟨_, decodeLength_eq_ok_iff.mpr ⟨digits, rfl⟩⟩

def word? (n : Nat) : Option UInt64 := if n < UInt64.size then some (UInt64.ofNat n) else none

def subtract? (a b : UInt8) : Option UInt8 :=
  if a.toBitVec.usubOverflow b.toBitVec then none else some (a - b)

def multiply? (a b : UInt64) : Option UInt64 :=
  if a.toBitVec.umulOverflow b.toBitVec then none else some (a * b)

def add? (a b : UInt64) : Option UInt64 :=
  if a.toBitVec.uaddOverflow b.toBitVec then none else some (a + b)

/-- The number with one more digit behind it, unless a step of the arithmetic overflows. -/
def pushDigit? (n : UInt64) (b : UInt8) : Option UInt64 := do
  let tens ← multiply? n 10
  let digit ← subtract? b 48
  add? tens digit.toUInt64

/-- What a field is read as in words, unless a step of the arithmetic overflows. -/
def decodeWord? (field : Bytes) : Option (Except Error UInt64) :=
  if field.all isDigitByte then (field.foldlM pushDigit? 0).map .ok
  else some (.error (.invalidLength (Text.lossy field)))

theorem multiply?_eq (a b : UInt64) : multiply? a b = word? (a.toNat * b.toNat) := by
  have overflow : a.toBitVec.umulOverflow b.toBitVec =
      decide (UInt64.size ≤ a.toNat * b.toNat) := rfl
  simp only [multiply?, word?, overflow, decide_eq_true_eq, ← Nat.not_lt, ite_not, UInt64.ofNat_mul,
    UInt64.ofNat_toNat]

theorem add?_eq (a b : UInt64) : add? a b = word? (a.toNat + b.toNat) := by
  have overflow : a.toBitVec.uaddOverflow b.toBitVec =
      decide (UInt64.size ≤ a.toNat + b.toNat) := rfl
  simp only [add?, word?, overflow, decide_eq_true_eq, ← Nat.not_lt, ite_not, UInt64.ofNat_add,
    UInt64.ofNat_toNat]

theorem subtract?_eq {a b : UInt8} (le : b ≤ a) : subtract? a b = some (a - b) :=
  if_neg (Bool.not_eq_true _ ▸ decide_eq_false (Nat.not_lt.mpr (UInt8.le_iff_toNat_le.mp le)))

theorem word?_fits {n : Nat} (fits : n < UInt64.size) :
    word? n = some (UInt64.ofNat n) ∧ (UInt64.ofNat n).toNat = n :=
  ⟨if_pos fits, UInt64.toNat_ofNat_of_lt' fits⟩

theorem word?_none {n : Nat} (long : UInt64.size ≤ n) : word? n = none :=
  if_neg (Nat.not_lt.mpr long)

theorem word?_bind_pushDigit? {b : UInt8} (digit : isDigitByte b = true) (n : Nat) :
    (word? n).bind (pushDigit? · b) = word? (n * 10 + (b.toNat - 48)) := by
  have low : (48 : UInt8) ≤ b := UInt8.le_iff_toNat_le.mpr (isDigitByte_iff.mp digit).1
  have value : (b - 48).toUInt64.toNat = b.toNat - 48 := UInt8.toNat_sub_of_le b 48 low
  by_cases fits : n < UInt64.size
  · obtain ⟨word, toNat⟩ := word?_fits fits
    have tens : multiply? (UInt64.ofNat n) 10 = word? (n * 10) := by
      rw [multiply?_eq, toNat]
      rfl
    simp only [word, Option.bind_some, pushDigit?, tens, subtract?_eq low, Option.bind_eq_bind]
    by_cases fits' : n * 10 < UInt64.size
    · obtain ⟨word', toNat'⟩ := word?_fits fits'
      rw [word', Option.bind_some, add?_eq, toNat', value]
    · rw [word?_none (Nat.not_lt.mp fits'), word?_none (by omega), Option.bind_none]
  · rw [word?_none (Nat.not_lt.mp fits), word?_none (by omega), Option.bind_none]

theorem foldlM_pushDigit? {field : Bytes} (digits : field.all isDigitByte = true) :
    field.foldlM pushDigit? 0 = word? (fieldValue field) := by
  induction field using List.reverseRecOn with
  | nil => rfl
  | append_singleton front b ih =>
    rw [List.all_append, Bool.and_eq_true] at digits
    obtain ⟨front_digits, last⟩ := digits
    have digit : isDigitByte b = true := by simpa using last
    rw [List.foldlM_append, ih front_digits, fieldValue_concat, ← word?_bind_pushDigit? digit]
    simp only [List.foldlM_cons, List.foldlM_nil, bind_pure, Option.bind_eq_bind]

example : (List.replicate 20 57).foldlM pushDigit? 0 = none := by decide

theorem decodeWord?_eq {field : Bytes} (ten : field.length = fieldLength) :
    ∃ result, decodeWord? field = some result ∧
      result.map UInt64.toNat = decodeLength field := by
  unfold decodeWord? decodeLength
  by_cases digits : field.all isDigitByte = true
  · have small : fieldValue field < UInt64.size := by
      refine Nat.lt_trans (fieldValue_lt digits) ?_
      rw [ten]
      decide
    obtain ⟨word, toNat⟩ := word?_fits small
    refine ⟨.ok (UInt64.ofNat (fieldValue field)), ?_, ?_⟩
    · rw [if_pos digits, foldlM_pushDigit? digits, word, Option.map_some]
    · rw [if_pos digits, Except.map, toNat]
  · refine ⟨_, if_neg digits, ?_⟩
    rw [if_neg digits]
    rfl

theorem append_lt_append {as bs : Bytes} (lt : as < bs) (length : as.length = bs.length)
    (cs ds : Bytes) : as ++ cs < bs ++ ds := by
  induction lt with
  | nil => cases length
  | rel h => exact List.Lex.rel h
  | cons _ ih => exact List.Lex.cons (ih (Nat.succ.inj length))

theorem lastDigits_lt {count m n : Nat} (lt : m < n) (fits : n < Nat.pow 10 count) :
    lastDigits count m < lastDigits count n := by
  induction count generalizing m n with
  | zero =>
    have zero : n < 1 := fits
    omega
  | succ count ih =>
    have hpow : Nat.pow 10 (count + 1) = 10 * Nat.pow 10 count := Nat.mul_comm _ _
    have front : n / 10 < Nat.pow 10 count := Nat.div_lt_of_lt_mul (hpow ▸ fits)
    have le : m / 10 ≤ n / 10 := Nat.div_le_div_right (Nat.le_of_lt lt)
    rw [lastDigits, lastDigits]
    rcases Nat.lt_or_eq_of_le le with smaller | same
    · have length : (lastDigits count (m / 10)).length = (lastDigits count (n / 10)).length := by
        rw [lastDigits_length, lastDigits_length]
      exact append_lt_append (ih smaller front) length _ _
    · have digit : digitByte m < digitByte n := by
        rw [UInt8.lt_iff_toNat_lt, digitByte_toNat, digitByte_toNat]
        omega
      rw [same]
      exact List.append_left_lt (List.Lex.rel digit)

theorem encodeLength_lt {m n : Nat} {f g : Bytes} (hf : encodeLength m = .ok f)
    (hg : encodeLength n = .ok g) (lt : m < n) : f < g := by
  obtain ⟨-, rfl⟩ := encodeLength_eq_ok_iff.mp hf
  obtain ⟨fits, rfl⟩ := encodeLength_eq_ok_iff.mp hg
  exact lastDigits_lt lt (Nat.lt_succ_of_le fits)

theorem encodeLength_lt_iff {m n : Nat} {f g : Bytes} (hf : encodeLength m = .ok f)
    (hg : encodeLength n = .ok g) : m < n ↔ f < g := by
  refine ⟨encodeLength_lt hf hg, fun lt => ?_⟩
  rcases Nat.lt_trichotomy m n with smaller | rfl | larger
  · exact smaller
  · cases hf.symm.trans hg
    exact absurd lt (List.lt_irrefl f)
  · exact absurd lt (List.lt_asymm (encodeLength_lt hg hf larger))

/-- Exactly the lengths beyond ten digits are refused, and any other length has a field of ten
digits that is read as this length. Of the fields of ten bytes exactly those of ten digits are read.
No step of that overflows a word, and what is read is a length that has this field. Lengths are in
the order of their fields, byte by byte. -/
theorem lengths_correspond_to_fields :
    (∀ n : Nat,
      (encodeLength n = .error (.tooLarge n) ↔ 9999999999 < n) ∧
      (n ≤ 9999999999 → ∃ field, encodeLength n = .ok field ∧ field.length = 10 ∧
        (∀ b ∈ field, '0'.toNat ≤ b.toNat ∧ b.toNat ≤ '9'.toNat) ∧
        decodeLength field = .ok n)) ∧
    (∀ field : Bytes, field.length = 10 →
      ((∃ n, decodeLength field = .ok n) ↔
        ∀ b ∈ field, '0'.toNat ≤ b.toNat ∧ b.toNat ≤ '9'.toNat) ∧
      (∃ result, decodeWord? field = some result ∧
        result.map UInt64.toNat = decodeLength field) ∧
      ∀ n, decodeLength field = .ok n → n ≤ 9999999999 ∧ encodeLength n = .ok field) ∧
    (∀ (m n : Nat) (f g : Bytes), encodeLength m = .ok f → encodeLength n = .ok g →
      (m < n ↔ f < g)) := by
  refine ⟨fun n => ⟨⟨?_, encodeLength_long⟩, ?_⟩, fun field ten => ⟨?_, decodeWord?_eq ten, ?_⟩, ?_⟩
  · intro refused
    by_contra fits
    rw [encodeLength_fits (Nat.not_lt.mp fits)] at refused
    cases refused
  · intro fits
    have header := encodeLength_fits fits
    have digits := lastDigits_digits fieldLength n
    exact ⟨_, header, encodeLength_length header, all_isDigitByte_iff.mp digits,
      decodeLength_encodeLength header⟩
  · exact decodeLength_succeeds_iff.trans all_isDigitByte_iff
  · intro n decoded
    have header := encodeLength_decodeLength ten decoded
    exact ⟨(encodeLength_eq_ok_iff.mp header).1, header⟩
  · intro m n f g hf hg
    exact encodeLength_lt_iff hf hg

/-- The longest length and the first one beyond it, a field with a letter in it, and two lengths
whose order is decided behind the zeros that fill their fields. -/
theorem outermost_lengths_correspond :
    encodeLength 9999999999 = .ok (Text.bytes "9999999999") ∧
    (∃ result, decodeWord? (Text.bytes "9999999999") = some result ∧
      result.map UInt64.toNat = .ok 9999999999) ∧
    encodeLength 10000000000 = .error (.tooLarge 10000000000) ∧
    (¬∃ n, decodeLength (Text.bytes "00000x0001") = .ok n) ∧
    Text.bytes "0000000999" < Text.bytes "0000001000" := by
  obtain ⟨lengths, fields, order⟩ := lengths_correspond_to_fields
  obtain ⟨-, word, longest⟩ := fields (Text.bytes "9999999999") rfl
  obtain ⟨readable, -⟩ := fields (Text.bytes "00000x0001") rfl
  refine ⟨(longest 9999999999 rfl).2, word, (lengths 10000000000).1.mpr (by decide), ?_, ?_⟩
  · rw [readable]
    decide +kernel
  · exact (order 999 1000 _ _ rfl rfl).mp (by decide)

end SemanticHighlight.Frame
