/-!
# UTF-8

The bytes of a text, and the text of bytes. `ofBytes?` reads bytes that are UTF-8 and refuses all
others. `lossy` reads any bytes: every longest run of bytes that begins a character and is then not
continued, and every byte that begins none, is read as one replacement character.
-/

set_option autoImplicit false

namespace SemanticHighlight

abbrev Bytes := List UInt8

namespace Text

def bytes (s : String) : Bytes := s.toUTF8.data.toList

def byteLength : List Char → Nat
  | [] => 0
  | c :: cs => c.utf8Size + byteLength cs

theorem byteLength_append (cs ds : List Char) :
    byteLength (cs ++ ds) = byteLength cs + byteLength ds := by
  induction cs with
  | nil => simp [byteLength]
  | cons c cs ih => rw [List.cons_append, byteLength, byteLength, ih, Nat.add_assoc]

theorem eq_nil_of_byteLength {cs : List Char} (h : byteLength cs = 0) : cs = [] := by
  cases cs with
  | nil => rfl
  | cons c cs => have := c.utf8Size_pos; rw [byteLength] at h; omega

theorem bytes_eq_flatMap (s : String) : bytes s = s.toList.flatMap String.utf8EncodeChar := by
  have h := String.utf8Encode_toList (b := s)
  simp only [bytes, String.toUTF8, ← h, List.utf8Encode, List.data_toByteArray]

theorem bytes_append (s t : String) : bytes (s ++ t) = bytes s ++ bytes t := by
  simp [bytes_eq_flatMap]

theorem bytes_injective {s t : String} (h : bytes s = bytes t) : s = t := by
  apply String.toByteArray_inj.1
  exact ByteArray.ext (Array.toList_inj.1 h)

def ofBytes? (bs : Bytes) : Option String := String.fromUTF8? ⟨bs.toArray⟩

theorem length_bytes (s : String) : (bytes s).length = byteLength s.toList := by
  rw [bytes_eq_flatMap]
  induction s.toList with
  | nil => rfl
  | cons c cs ih => simp [byteLength, ih]

theorem ofBytes?_bytes (s : String) : ofBytes? (bytes s) = some s := by
  have h : (⟨(bytes s).toArray⟩ : ByteArray) = s.toByteArray := ByteArray.ext (by simp [bytes])
  simp only [ofBytes?, h, String.fromUTF8?]
  exact dif_pos s.isValidUTF8

theorem bytes_ofBytes? {bs : Bytes} {s : String} (h : ofBytes? bs = some s) : bytes s = bs := by
  simp only [ofBytes?, String.fromUTF8?] at h
  split at h
  · cases h
    rfl
  · cases h

/-- A character some of whose bytes are still to come: the bits read so far, the range of the next
byte, and how many bytes follow that one. -/
structure Begun where
  bits : Nat
  low : UInt8
  high : UInt8
  after : Nat

def replacement : Char := '\uFFFD'

def begin (b : UInt8) : List Char × Option Begun :=
  if b < 0x80 then ([Char.ofNat b.toNat], none)
  else if b < 0xC2 then ([replacement], none)
  else if b < 0xE0 then ([], some ⟨b.toNat % 32, 0x80, 0xBF, 0⟩)
  else if b = 0xE0 then ([], some ⟨0, 0xA0, 0xBF, 1⟩)
  else if b = 0xED then ([], some ⟨13, 0x80, 0x9F, 1⟩)
  else if b < 0xF0 then ([], some ⟨b.toNat % 16, 0x80, 0xBF, 1⟩)
  else if b = 0xF0 then ([], some ⟨0, 0x90, 0xBF, 2⟩)
  else if b < 0xF4 then ([], some ⟨b.toNat % 8, 0x80, 0xBF, 2⟩)
  else if b = 0xF4 then ([], some ⟨4, 0x80, 0x8F, 2⟩)
  else ([replacement], none)

def feed : Option Begun → UInt8 → List Char × Option Begun
  | none, b => begin b
  | some p, b =>
    if p.low ≤ b ∧ b ≤ p.high then
      let bits := p.bits * 64 + b.toNat % 64
      match p.after with
      | 0 => ([Char.ofNat bits], none)
      | n + 1 => ([], some ⟨bits, 0x80, 0xBF, n⟩)
    else (replacement :: (begin b).1, (begin b).2)

def lossyFrom : Option Begun → Bytes → List Char
  | none, [] => []
  | some _, [] => [replacement]
  | begun, b :: bs => (feed begun b).1 ++ lossyFrom (feed begun b).2 bs

def lossy (bs : Bytes) : String := String.ofList (lossyFrom none bs)

end Text

end SemanticHighlight
