import SemanticHighlight.Frame.Writer

/-!
# Length fields and frames

A length field is read back as the length it was written for, and a field of ten digits is the field
of the length it is read as. So a frame is known by its first bytes: no frame is the beginning of
another one.
-/

set_option autoImplicit false

namespace SemanticHighlight.Frame

theorem digitByte_toNat (n : Nat) : (digitByte n).toNat = 48 + n % 10 := by
  have hn : n % 10 < 10 := Nat.mod_lt n (by decide)
  rw [digitByte, UInt8.toNat_ofNat']
  omega

theorem isDigitByte_iff {b : UInt8} : isDigitByte b = true ↔ 48 ≤ b.toNat ∧ b.toNat ≤ 57 := by
  simp only [isDigitByte, Bool.and_eq_true, decide_eq_true_eq, UInt8.le_iff_toNat_le]
  rfl

theorem isDigitByte_digitByte (n : Nat) : isDigitByte (digitByte n) = true := by
  rw [isDigitByte_iff, digitByte_toNat]
  omega

theorem digitByte_of_isDigitByte {b : UInt8} (h : isDigitByte b = true) :
    digitByte (b.toNat - 48) = b := by
  have range := isDigitByte_iff.mp h
  apply UInt8.toNat_inj.mp
  rw [digitByte_toNat]
  omega

theorem lastDigits_length (count n : Nat) : (lastDigits count n).length = count := by
  induction count generalizing n with
  | zero => rfl
  | succ count ih => simp [lastDigits, ih]

theorem lastDigits_digits (count n : Nat) : (lastDigits count n).all isDigitByte = true := by
  induction count generalizing n with
  | zero => rfl
  | succ count ih => simp only [lastDigits, List.all_append, ih, List.all_cons, List.all_nil,
      isDigitByte_digitByte, Bool.and_self]

theorem fieldValue_concat (field : Bytes) (b : UInt8) :
    fieldValue (field ++ [b]) = fieldValue field * 10 + (b.toNat - 48) := by
  simp [fieldValue]

theorem fieldValue_lastDigits (count n : Nat) :
    fieldValue (lastDigits count n) = n % Nat.pow 10 count := by
  induction count generalizing n with
  | zero => exact (Nat.mod_one n).symm
  | succ count ih =>
    have hpow : Nat.pow 10 (count + 1) = 10 * Nat.pow 10 count := Nat.mul_comm _ _
    rw [lastDigits, fieldValue_concat, ih, digitByte_toNat, hpow, Nat.mod_mul]
    omega

theorem lastDigits_fieldValue (count : Nat) (field : Bytes) (hl : field.length = count)
    (hd : field.all isDigitByte = true) : lastDigits count (fieldValue field) = field := by
  induction count generalizing field with
  | zero =>
    rw [List.eq_nil_of_length_eq_zero hl]
    rfl
  | succ count ih =>
    obtain rfl | ⟨front, b, rfl⟩ := field.eq_nil_or_concat
    · cases hl
    · simp only [List.concat_eq_append, List.length_append, List.length_singleton] at hl
      simp only [List.concat_eq_append, List.all_append, List.all_cons, List.all_nil, Bool.and_true,
        Bool.and_eq_true] at hd
      have hb := digitByte_of_isDigitByte hd.2
      have range := isDigitByte_iff.mp hd.2
      have hdiv : (fieldValue front * 10 + (b.toNat - 48)) / 10 = fieldValue front := by omega
      have hdigit : digitByte (fieldValue front * 10 + (b.toNat - 48)) = digitByte (b.toNat - 48) := by
        apply UInt8.toNat_inj.mp
        rw [digitByte_toNat, digitByte_toNat]
        omega
      rw [List.concat_eq_append, lastDigits, fieldValue_concat, hdiv, hdigit, hb,
        ih front (by omega) hd.1]

theorem fieldValue_lt {field : Bytes} (hd : field.all isDigitByte = true) :
    fieldValue field < Nat.pow 10 field.length := by
  have hv := fieldValue_lastDigits field.length (fieldValue field)
  rw [lastDigits_fieldValue field.length field rfl hd] at hv
  exact hv ▸ Nat.mod_lt _ (Nat.pow_pos (by decide))

theorem encodeLength_eq_ok_iff {n : Nat} {field : Bytes} :
    encodeLength n = .ok field ↔ n ≤ maxLength ∧ lastDigits fieldLength n = field := by
  unfold encodeLength
  split
  · rename_i long
    simp [Nat.not_le.mpr long]
  · rename_i fits
    simp [Nat.not_lt.mp fits]

theorem decodeLength_eq_ok_iff {field : Bytes} {n : Nat} :
    decodeLength field = .ok n ↔ field.all isDigitByte = true ∧ fieldValue field = n := by
  unfold decodeLength
  split
  · rename_i digits
    simp [digits]
  · rename_i other
    simp [other]

theorem encodeLength_length {n : Nat} {field : Bytes} (h : encodeLength n = .ok field) :
    field.length = fieldLength := by
  obtain ⟨-, rfl⟩ := encodeLength_eq_ok_iff.mp h
  exact lastDigits_length fieldLength n

theorem decodeLength_encodeLength {n : Nat} {field : Bytes} (h : encodeLength n = .ok field) :
    decodeLength field = .ok n := by
  obtain ⟨fits, rfl⟩ := encodeLength_eq_ok_iff.mp h
  have hlt : n < Nat.pow 10 fieldLength := Nat.lt_succ_of_le fits
  refine decodeLength_eq_ok_iff.mpr ⟨lastDigits_digits _ _, ?_⟩
  rw [fieldValue_lastDigits, Nat.mod_eq_of_lt hlt]

theorem encodeLength_decodeLength {n : Nat} {field : Bytes} (hl : field.length = fieldLength)
    (h : decodeLength field = .ok n) : encodeLength n = .ok field := by
  obtain ⟨hd, rfl⟩ := decodeLength_eq_ok_iff.mp h
  have hlt := fieldValue_lt hd
  rw [hl] at hlt
  exact encodeLength_eq_ok_iff.mpr
    ⟨Nat.le_of_lt_succ hlt, lastDigits_fieldValue fieldLength field hl hd⟩

theorem encode_parts {payload frame : Bytes} (h : encode payload = .ok frame) :
    ∃ field, encodeLength payload.length = .ok field ∧ frame = field ++ payload := by
  unfold encode at h
  split at h
  · cases h
  · rename_i field hf
    cases h
    exact ⟨field, hf, rfl⟩

theorem encode_of_parts {payload field : Bytes} (h : encodeLength payload.length = .ok field) :
    encode payload = .ok (field ++ payload) := by
  rw [encode, h]

theorem encode_digits {payload frame : Bytes} (h : encode payload = .ok frame) :
    (frame.take fieldLength).all isDigitByte = true := by
  obtain ⟨field, hf, rfl⟩ := encode_parts h
  rw [List.take_append_of_le_length (Nat.le_of_eq (encodeLength_length hf).symm),
    List.take_of_length_le (Nat.le_of_eq (encodeLength_length hf))]
  exact (decodeLength_eq_ok_iff.mp (decodeLength_encodeLength hf)).1

theorem encode_prefix_free {a b frame rest : Bytes} (ha : encode a = .ok frame)
    (hb : encode b = .ok (frame ++ rest)) : rest = [] ∧ b = a := by
  obtain ⟨field, hf, rfl⟩ := encode_parts ha
  obtain ⟨field', hf', heq⟩ := encode_parts hb
  have hl : field.length = field'.length := by
    rw [encodeLength_length hf, encodeLength_length hf']
  rw [List.append_assoc] at heq
  obtain ⟨rfl, hrest⟩ := List.append_inj heq hl
  have hlen : a.length = b.length := by
    have hd := decodeLength_encodeLength hf
    rw [decodeLength_encodeLength hf'] at hd
    exact (Except.ok.inj hd).symm
  subst hrest
  rw [List.length_append] at hlen
  have hnil := List.eq_nil_of_length_eq_zero (show rest.length = 0 by omega)
  exact ⟨hnil, by rw [hnil, List.append_nil]⟩

end SemanticHighlight.Frame
