import SemanticHighlight.Text.Utf8

/-!
# UTF-8 read back

A text is read back from its bytes also by the reader that takes any bytes: what it would replace
does not occur in the bytes of a text. A byte below 128 is always a character of its own.
-/

set_option autoImplicit false

namespace SemanticHighlight.Text

def tailByte (n : Nat) : UInt8 := UInt8.ofNat (n % 64 + 128)

theorem tailByte_toNat (n : Nat) : (tailByte n).toNat = n % 64 + 128 := by
  rw [tailByte, UInt8.toNat_ofNat']
  omega

theorem within_iff (p : Begun) (b : UInt8) :
    (p.low ≤ b ∧ b ≤ p.high) ↔ p.low.toNat ≤ b.toNat ∧ b.toNat ≤ p.high.toNat := by
  rw [UInt8.le_iff_toNat_le, UInt8.le_iff_toNat_le]

theorem lossyFrom_last {p : Begun} (last : p.after = 0) {n : Nat}
    (low : p.low.toNat ≤ n % 64 + 128) (high : n % 64 + 128 ≤ p.high.toNat) (bs : Bytes) :
    lossyFrom (some p) (tailByte n :: bs) =
      Char.ofNat (p.bits * 64 + n % 64) :: lossyFrom none bs := by
  have within : p.low ≤ tailByte n ∧ tailByte n ≤ p.high := by
    rw [within_iff, tailByte_toNat]
    exact ⟨low, high⟩
  have bits : (n % 64 + 128) % 64 = n % 64 := by omega
  simp [lossyFrom, feed, within, last, tailByte_toNat, bits]

theorem lossyFrom_inside {p : Begun} {after : Nat} (inside : p.after = after + 1) {n : Nat}
    (low : p.low.toNat ≤ n % 64 + 128) (high : n % 64 + 128 ≤ p.high.toNat) (bs : Bytes) :
    lossyFrom (some p) (tailByte n :: bs) =
      lossyFrom (some ⟨p.bits * 64 + n % 64, 0x80, 0xBF, after⟩) bs := by
  have within : p.low ≤ tailByte n ∧ tailByte n ≤ p.high := by
    rw [within_iff, tailByte_toNat]
    exact ⟨low, high⟩
  have bits : (n % 64 + 128) % 64 = n % 64 := by omega
  simp [lossyFrom, feed, within, inside, tailByte_toNat, bits]

theorem begin_eq (b : UInt8) : begin b =
    if b.toNat < 128 then ([Char.ofNat b.toNat], none)
    else if b.toNat < 194 then ([replacement], none)
    else if b.toNat < 224 then ([], some ⟨b.toNat % 32, 0x80, 0xBF, 0⟩)
    else if b.toNat = 224 then ([], some ⟨0, 0xA0, 0xBF, 1⟩)
    else if b.toNat = 237 then ([], some ⟨13, 0x80, 0x9F, 1⟩)
    else if b.toNat < 240 then ([], some ⟨b.toNat % 16, 0x80, 0xBF, 1⟩)
    else if b.toNat = 240 then ([], some ⟨0, 0x90, 0xBF, 2⟩)
    else if b.toNat < 244 then ([], some ⟨b.toNat % 8, 0x80, 0xBF, 2⟩)
    else if b.toNat = 244 then ([], some ⟨4, 0x80, 0x8F, 2⟩)
    else ([replacement], none) := by
  simp only [begin, UInt8.lt_iff_toNat_lt, ← UInt8.toNat_inj, UInt8.reduceToNat]

theorem begin_two {b : UInt8} (low : 194 ≤ b.toNat) (high : b.toNat < 224) :
    begin b = ([], some ⟨b.toNat % 32, 0x80, 0xBF, 0⟩) := by
  rw [begin_eq, if_neg (by omega), if_neg (by omega), if_pos high]

/-- After the first of three bytes the range of the second shuts out the numbers that two bytes
write, and the surrogates. -/
theorem begin_three {b : UInt8} (low : 224 ≤ b.toNat) (high : b.toNat < 240) :
    begin b = ([], some ⟨b.toNat % 16, if b.toNat = 224 then 0xA0 else 0x80,
      if b.toNat = 237 then 0x9F else 0xBF, 1⟩) := by
  rw [begin_eq, if_neg (by omega), if_neg (by omega), if_neg (by omega)]
  by_cases first : b.toNat = 224
  · simp [first]
  · by_cases surrogates : b.toNat = 237
    · simp [surrogates]
    · simp [first, surrogates, high]

/-- After the first of four bytes the range of the second shuts out the numbers that three bytes
write, and those that are no code points. -/
theorem begin_four {b : UInt8} (low : 240 ≤ b.toNat) (high : b.toNat < 245) :
    begin b = ([], some ⟨b.toNat % 8, if b.toNat = 240 then 0x90 else 0x80,
      if b.toNat = 244 then 0x8F else 0xBF, 2⟩) := by
  rw [begin_eq, if_neg (by omega), if_neg (by omega), if_neg (by omega), if_neg (by omega),
    if_neg (by omega), if_neg (by omega)]
  by_cases first : b.toNat = 240
  · simp [first]
  · by_cases last : b.toNat = 244
    · simp [last]
    · have between : b.toNat < 244 := by omega
      simp [first, last, between]

def encoded (cs : List Char) : Bytes := cs.flatMap String.utf8EncodeChar

theorem bytes_ofList (cs : List Char) : bytes (String.ofList cs) = encoded cs := by
  rw [bytes_eq_flatMap, String.toList_ofList, encoded]

@[simp] theorem encoded_nil : encoded [] = [] := rfl

@[simp] theorem encoded_cons (c : Char) (cs : List Char) :
    encoded (c :: cs) = String.utf8EncodeChar c ++ encoded cs := List.flatMap_cons

@[simp] theorem encoded_append (cs ds : List Char) :
    encoded (cs ++ ds) = encoded cs ++ encoded ds := List.flatMap_append

theorem length_encoded (cs : List Char) : (encoded cs).length = byteLength cs := by
  rw [← bytes_ofList, length_bytes, String.toList_ofList]

theorem mem_encodeChar {c : Char} {b : UInt8} (h : b ∈ String.utf8EncodeChar c) :
    c.toNat < 128 ∧ b.toNat = c.toNat ∨ 128 ≤ c.toNat ∧ 128 ≤ b.toNat := by
  have valid : c.toNat < 55296 ∨ 57343 < c.toNat ∧ c.toNat < 1114112 := c.valid
  have code : c.val.toNat = c.toNat := rfl
  rw [String.utf8EncodeChar.eq_1, code] at h
  generalize c.toNat = v at h valid
  split at h
  · rw [List.mem_singleton.1 h, UInt8.toNat_ofNat']
    omega
  · refine .inr ⟨by omega, ?_⟩
    split at h
    · simp only [List.mem_cons, List.not_mem_nil, or_false] at h
      rcases h with rfl | rfl <;> rw [UInt8.toNat_ofNat'] <;> omega
    · split at h
      · simp only [List.mem_cons, List.not_mem_nil, or_false] at h
        rcases h with rfl | rfl | rfl <;> rw [UInt8.toNat_ofNat'] <;> omega
      · simp only [List.mem_cons, List.not_mem_nil, or_false] at h
        rcases h with rfl | rfl | rfl | rfl <;> rw [UInt8.toNat_ofNat'] <;> omega

theorem encodeChar_leads (c : Char) :
    ∃ b bs, String.utf8EncodeChar c = b :: bs ∧ (b.toNat < 128 ∨ 192 ≤ b.toNat) := by
  have valid : c.toNat < 55296 ∨ 57343 < c.toNat ∧ c.toNat < 1114112 := c.valid
  have code : c.val.toNat = c.toNat := rfl
  rw [String.utf8EncodeChar.eq_1, code]
  generalize c.toNat = v at valid
  split
  · exact ⟨_, _, rfl, by rw [UInt8.toNat_ofNat']; omega⟩
  · split
    · exact ⟨_, _, rfl, by rw [UInt8.toNat_ofNat']; omega⟩
    · split <;> exact ⟨_, _, rfl, by rw [UInt8.toNat_ofNat']; omega⟩

theorem lossyFrom_encode (c : Char) (bs : Bytes) :
    lossyFrom none (String.utf8EncodeChar c ++ bs) = c :: lossyFrom none bs := by
  have valid : c.toNat < 55296 ∨ 57343 < c.toNat ∧ c.toNat < 1114112 := c.valid
  have value : Char.ofNat c.toNat = c := Char.ofNat_toNat c
  have code : c.val.toNat = c.toNat := rfl
  rw [String.utf8EncodeChar.eq_1, code]
  generalize c.toNat = v at valid value
  by_cases one : v ≤ 127
  · have lead : (UInt8.ofNat v).toNat = v := by rw [UInt8.toNat_ofNat']; omega
    rw [if_pos one, List.singleton_append, lossyFrom, feed, begin_eq, lead, if_pos (by omega), value]
    rfl
  by_cases two : v ≤ 2047
  · have lead : (UInt8.ofNat (v / 64 % 32 + 192)).toNat = v / 64 + 192 := by
      rw [UInt8.toNat_ofNat']; omega
    have bits : (v / 64 + 192) % 32 * 64 + v % 64 = v := by omega
    rw [if_neg one, if_pos two, List.cons_append, List.singleton_append, lossyFrom, feed,
      begin_two (by omega) (by omega), lead, List.nil_append]
    change lossyFrom (some _) (tailByte v :: bs) = _
    rw [lossyFrom_last rfl (by simp) (by simp; omega)]
    simp only [bits, value]
  by_cases three : v ≤ 65535
  · have lead : (UInt8.ofNat (v / 4096 % 16 + 224)).toNat = v / 4096 + 224 := by
      rw [UInt8.toNat_ofNat']; omega
    have bits : ((v / 4096 + 224) % 16 * 64 + v / 64 % 64) * 64 + v % 64 = v := by omega
    rw [if_neg one, if_neg two, if_pos three, List.cons_append, List.cons_append,
      List.singleton_append, lossyFrom, feed, begin_three (by omega) (by omega), lead,
      List.nil_append]
    change lossyFrom (some _) (tailByte (v / 64) :: tailByte v :: bs) = _
    rw [lossyFrom_inside rfl, lossyFrom_last rfl (by simp) (by simp; omega)]
    · simp only [bits, value]
    · dsimp only
      split
      · simp
        omega
      · simp
    · dsimp only
      split <;> simp <;> omega
  · have lead : (UInt8.ofNat (v / 262144 % 8 + 240)).toNat = v / 262144 + 240 := by
      rw [UInt8.toNat_ofNat']; omega
    have bits : (((v / 262144 + 240) % 8 * 64 + v / 4096 % 64) * 64 + v / 64 % 64) * 64 + v % 64 =
        v := by omega
    rw [if_neg one, if_neg two, if_neg three, List.cons_append, List.cons_append, List.cons_append,
      List.singleton_append, lossyFrom, feed, begin_four (by omega) (by omega), lead,
      List.nil_append]
    change lossyFrom (some _) (tailByte (v / 4096) :: tailByte (v / 64) :: tailByte v :: bs) = _
    rw [lossyFrom_inside rfl, lossyFrom_inside rfl (by simp) (by simp; omega),
      lossyFrom_last rfl (by simp) (by simp; omega)]
    · simp only [bits, value]
    · dsimp only
      split
      · simp
        omega
      · simp
    · dsimp only
      split <;> simp <;> omega

theorem length_bytes_replicate (n : Nat) {c : Char} (single : c.utf8Size = 1) :
    (bytes (String.ofList (List.replicate n c))).length = n := by
  rw [length_bytes, String.toList_ofList]
  induction n with
  | zero => rfl
  | succ n ih => rw [List.replicate_succ, byteLength, single, ih, Nat.add_comm]

theorem lossyFrom_flatMap (cs : List Char) :
    lossyFrom none (cs.flatMap String.utf8EncodeChar) = cs := by
  induction cs with
  | nil => rfl
  | cons c cs ih => rw [List.flatMap_cons, lossyFrom_encode, ih]

theorem lossy_bytes (s : String) : lossy (bytes s) = s := by
  rw [lossy, bytes_eq_flatMap, lossyFrom_flatMap, String.ofList_toList]

end SemanticHighlight.Text
