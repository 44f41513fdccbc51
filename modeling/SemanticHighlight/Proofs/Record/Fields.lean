import Mathlib.Data.List.Induction
import Mathlib.Data.Nat.Digits.Defs
import SemanticHighlight.Proofs.Record.Rows

/-!
# The fields of a record

Which lines are read as records, and as which. `Decodes` says what seven fields have to be, without
reference to the reader. A line with at most seven fields is read exactly if its fields decode. Of a
longer line the first seven fields decide, and what follows the seventh tab is passed over: the
reader ends the last field at its first blank character, and a tab is one.
-/

set_option autoImplicit false

namespace SemanticHighlight

namespace Text.Decimal

/-- A number below a bound: ASCII digits, at least one, after a plus sign or none. -/
structure Numeral (bound : Nat) (cs : List Char) (n : Nat) : Prop where
  spelled : ∃ ds, (cs = ds ∨ cs = '+' :: ds) ∧ ds ≠ [] ∧ (∀ c ∈ ds, c.isDigit = true) ∧
    Nat.ofDigits 10 (ds.reverse.map fun c => c.toNat - 48) = n
  below : n < bound

theorem value_eq_ofDigits (ds : List Char) :
    value ds = Nat.ofDigits 10 (ds.reverse.map fun c => c.toNat - 48) := by
  induction ds using List.reverseRecOn with
  | nil => rfl
  | append_singleton ds c ih =>
    rw [value_append_digit, ih, List.reverse_append, List.reverse_singleton,
      List.singleton_append, List.map_cons, Nat.ofDigits_cons]
    omega

theorem read?_unsigned {cs : List Char} (h : cs.head? ≠ some '+') (bound n : Nat) :
    read? bound cs = some n ↔
      cs ≠ [] ∧ (∀ c ∈ cs, c.isDigit = true) ∧ value cs < bound ∧ value cs = n := by
  simp [read?, h, and_assoc]

theorem read?_plus (ds : List Char) (bound n : Nat) :
    read? bound ('+' :: ds) = some n ↔
      ds ≠ [] ∧ (∀ c ∈ ds, c.isDigit = true) ∧ value ds < bound ∧ value ds = n := by
  simp [read?, and_assoc]

theorem read?_eq_some_iff {bound n : Nat} {cs : List Char} :
    read? bound cs = some n ↔ Numeral bound cs n := by
  constructor
  · intro h
    by_cases plus : cs.head? = some '+'
    · obtain ⟨ds, rfl⟩ := List.head?_eq_some_iff.1 plus
      obtain ⟨nonempty, digits, below, rfl⟩ := (read?_plus ds bound n).1 h
      exact ⟨⟨ds, .inr rfl, nonempty, digits, (value_eq_ofDigits ds).symm⟩, below⟩
    · obtain ⟨nonempty, digits, below, rfl⟩ := (read?_unsigned plus bound n).1 h
      exact ⟨⟨cs, .inl rfl, nonempty, digits, (value_eq_ofDigits cs).symm⟩, below⟩
  · rintro ⟨⟨ds, spelled, nonempty, digits, rfl⟩, below⟩
    rw [← value_eq_ofDigits] at below ⊢
    obtain rfl | rfl := spelled
    · have unsigned : cs.head? ≠ some '+' := fun plus =>
        absurd (digits '+' (List.mem_of_head? plus)) (by decide)
      exact (read?_unsigned unsigned bound _).2 ⟨nonempty, digits, below, rfl⟩
    · exact (read?_plus ds bound _).2 ⟨nonempty, digits, below, rfl⟩

end Text.Decimal

namespace Record

open Text (byteLength byteLength_append eq_nil_of_byteLength isBlank pieces)
open Text.Decimal (Numeral)

/-- The identifier at the beginning of a field: it ends at the first blank character, after 1023
bytes or after the announced number of bytes, whichever comes first, and there between two
characters. -/
structure Names (announced : Nat) (field ident : List Char) : Prop where
  nonempty : ident ≠ []
  starts : ident <+: field
  extent : byteLength ident =
    min (byteLength (field.takeWhile (!isBlank ·))) (min 1023 announced)

inductive Decodes : List (List Char) → Record → Prop
  | seven {kind : Char} {startLine startCol endLine endCol length field ident : List Char}
    {fromLine fromCol toLine toCol : UInt32} {announced : Nat}
    (hStartLine : Numeral (2 ^ 32) startLine fromLine.toNat)
    (hStartCol : Numeral (2 ^ 32) startCol fromCol.toNat)
    (hEndLine : Numeral (2 ^ 32) endLine toLine.toNat)
    (hEndCol : Numeral (2 ^ 32) endCol toCol.toNat)
    (hLength : Numeral (2 ^ 64) length announced)
    (hIdent : Names announced field ident) :
    Decodes [[kind], startLine, startCol, endLine, endCol, length, field]
      ⟨⟨kind⟩, fromLine, fromCol, toLine, toCol, String.ofList ident⟩

theorem Decodes.length_eq {fields : List (List Char)} {r : Record} (h : Decodes fields r) :
    fields.length = 7 := by
  cases h
  rfl

theorem u32?_eq_some_iff {cs : List Char} {n : UInt32} :
    u32? cs = some n ↔ Numeral (2 ^ 32) cs n.toNat := by
  rw [u32?, Option.map_eq_some_iff, ← Text.Decimal.read?_eq_some_iff]
  constructor
  · rintro ⟨m, read, rfl⟩
    have below : m < 2 ^ 32 := (Text.Decimal.read?_eq_some_iff.1 read).below
    rwa [UInt32.toNat_ofNat_of_lt' below]
  · intro read
    exact ⟨n.toNat, read, UInt32.ofNat_toNat⟩

theorem takeBytes?_eq_some_iff {limit : Nat} {cs ds : List Char} (h : limit ≤ byteLength cs) :
    takeBytes? limit cs = some ds ↔ ds <+: cs ∧ byteLength ds = limit := by
  induction cs generalizing limit ds with
  | nil =>
    obtain rfl : limit = 0 := Nat.le_zero.1 h
    simp only [takeBytes?, Option.some.injEq, List.prefix_nil]
    constructor
    · rintro rfl
      exact ⟨rfl, rfl⟩
    · rintro ⟨rfl, -⟩
      rfl
  | cons c cs ih =>
    have pos := c.utf8Size_pos
    rw [byteLength] at h
    cases limit with
    | zero =>
      simp only [takeBytes?, Option.some.injEq]
      constructor
      · rintro rfl
        exact ⟨List.nil_prefix, rfl⟩
      · rintro ⟨-, none⟩
        exact (eq_nil_of_byteLength none).symm
    | succ limit =>
      cases ds with
      | nil =>
        have short : byteLength [] ≠ limit + 1 := by simp [byteLength]
        simp [takeBytes?, short]
      | cons d ds =>
        rw [takeBytes?, List.cons_prefix_cons, byteLength]
        · by_cases fits : c.utf8Size ≤ limit + 1
          · rw [if_pos fits, Option.map_eq_some_iff]
            simp only [List.cons.injEq, ih (show limit + 1 - c.utf8Size ≤ _ by omega)]
            constructor
            · rintro ⟨_, ⟨starts, extent⟩, rfl, rfl⟩
              exact ⟨⟨rfl, starts⟩, by omega⟩
            · rintro ⟨⟨rfl, starts⟩, extent⟩
              exact ⟨ds, ⟨starts, by omega⟩, rfl, rfl⟩
          · rw [if_neg fits]
            constructor
            · intro taken
              cases taken
            · rintro ⟨⟨rfl, -⟩, extent⟩
              omega
        · exact Nat.succ_ne_zero limit

theorem starts_of_byteLength_le {ds es cs : List Char} (hd : ds <+: cs) (he : es <+: cs)
    (short : byteLength ds ≤ byteLength es) : ds <+: es := by
  obtain starts | ⟨tail, rfl⟩ := List.prefix_or_prefix_of_prefix hd he
  · exact starts
  · have none : byteLength tail = 0 := by rw [byteLength_append] at short; omega
    obtain rfl := eq_nil_of_byteLength none
    simp

theorem ident?_eq_some_iff {announced : Nat} {cs ident : List Char} :
    ident? announced cs = some ident ↔ Names announced cs ident := by
  have limited : min (byteLength (cs.takeWhile (!isBlank ·))) (min maxIdent announced) ≤
    byteLength (cs.takeWhile (!isBlank ·)) := Nat.min_le_left ..
  rw [ident?, Option.filter_eq_some_iff, takeBytes?_eq_some_iff limited]
  constructor
  · rintro ⟨⟨starts, extent⟩, nonempty⟩
    exact ⟨by simpa using nonempty, starts.trans (List.takeWhile_prefix _), extent⟩
  · rintro ⟨nonempty, starts, extent⟩
    refine ⟨⟨?_, extent⟩, by simpa using nonempty⟩
    exact starts_of_byteLength_le starts (List.takeWhile_prefix _) (extent.trans_le limited)

def fields (line : String) : List (List Char) := pieces '\t' line.toList

theorem cutTab?_eq_some_iff {cs field rest : List Char} :
    cutTab? cs = some (field, rest) ↔ '\t' ∉ field ∧ cs = field ++ '\t' :: rest := by
  constructor
  · intro h
    induction cs generalizing field with
    | nil => cases h
    | cons c cs ih =>
      rw [cutTab?] at h
      split at h
      · rename_i tab
        cases h
        exact ⟨by simp, by rw [tab]; rfl⟩
      · rename_i other
        obtain ⟨⟨front, _⟩, cut, same⟩ := Option.map_eq_some_iff.1 h
        cases same
        obtain ⟨absent, rfl⟩ := ih cut
        exact ⟨by simpa using ⟨Ne.symm other, absent⟩, rfl⟩
  · rintro ⟨absent, rfl⟩
    exact cutTab?_append absent rest

theorem kind?_eq_some_iff {cs : List Char} {kind : Tag} :
    kind? cs = some kind ↔ cs = [kind.letter] := by
  constructor
  · intro h
    unfold kind? at h
    split at h
    · cases h
      rfl
    · cases h
  · rintro rfl
    rfl

theorem takeWhile_piece (cs : List Char) :
    (cs.takeWhile (· ≠ '\t')).takeWhile (!isBlank ·) = cs.takeWhile (!isBlank ·) := by
  induction cs with
  | nil => rfl
  | cons c cs ih =>
    by_cases tab : c = '\t'
    · subst tab
      rfl
    · rw [List.takeWhile_cons_of_pos (by simpa using tab), List.takeWhile_cons,
        List.takeWhile_cons, ih]

/-- The last field may be taken up to the next tab: what it names ends there. -/
theorem names_piece {announced : Nat} {cs ident : List Char} :
    Names announced (cs.takeWhile (· ≠ '\t')) ident ↔ Names announced cs ident := by
  constructor
  · rintro ⟨nonempty, starts, extent⟩
    rw [takeWhile_piece] at extent
    exact ⟨nonempty, starts.trans (List.takeWhile_prefix _), extent⟩
  · rintro ⟨nonempty, starts, extent⟩
    have inWord := starts_of_byteLength_le starts (List.takeWhile_prefix (!isBlank ·))
      (extent.trans_le (Nat.min_le_left ..))
    rw [← takeWhile_piece] at extent inWord
    exact ⟨nonempty, inWord.trans (List.takeWhile_prefix _), extent⟩

theorem decodes_of_ofChars? {cs : List Char} {r : Record} (h : ofChars? cs = some r) :
    Decodes ((pieces '\t' cs).take 7) r := by
  -- the line is cut field by field, and then the fields are read
  obtain ⟨⟨kind, rest⟩, cutKind, h⟩ := Option.bind_eq_some_iff.1 h
  obtain ⟨⟨startLine, rest⟩, cutStartLine, h⟩ := Option.bind_eq_some_iff.1 h
  obtain ⟨⟨startCol, rest⟩, cutStartCol, h⟩ := Option.bind_eq_some_iff.1 h
  obtain ⟨⟨endLine, rest⟩, cutEndLine, h⟩ := Option.bind_eq_some_iff.1 h
  obtain ⟨⟨endCol, rest⟩, cutEndCol, h⟩ := Option.bind_eq_some_iff.1 h
  obtain ⟨⟨length, rest⟩, cutLength, h⟩ := Option.bind_eq_some_iff.1 h
  obtain ⟨tag, hKind, h⟩ := Option.bind_eq_some_iff.1 h
  obtain ⟨fromLine, hStartLine, h⟩ := Option.bind_eq_some_iff.1 h
  obtain ⟨fromCol, hStartCol, h⟩ := Option.bind_eq_some_iff.1 h
  obtain ⟨toLine, hEndLine, h⟩ := Option.bind_eq_some_iff.1 h
  obtain ⟨toCol, hEndCol, h⟩ := Option.bind_eq_some_iff.1 h
  obtain ⟨announced, hLength, h⟩ := Option.bind_eq_some_iff.1 h
  obtain ⟨ident, hIdent, h⟩ := Option.bind_eq_some_iff.1 h
  cases h
  cases kind?_eq_some_iff.1 hKind
  obtain ⟨absentKind, rfl⟩ := cutTab?_eq_some_iff.1 cutKind
  obtain ⟨absentStartLine, rfl⟩ := cutTab?_eq_some_iff.1 cutStartLine
  obtain ⟨absentStartCol, rfl⟩ := cutTab?_eq_some_iff.1 cutStartCol
  obtain ⟨absentEndLine, rfl⟩ := cutTab?_eq_some_iff.1 cutEndLine
  obtain ⟨absentEndCol, rfl⟩ := cutTab?_eq_some_iff.1 cutEndCol
  obtain ⟨absentLength, rfl⟩ := cutTab?_eq_some_iff.1 cutLength
  obtain ⟨more, last⟩ := Text.pieces_eq_cons '\t' rest
  rw [Text.pieces_append absentKind, Text.pieces_append absentStartLine,
    Text.pieces_append absentStartCol, Text.pieces_append absentEndLine,
    Text.pieces_append absentEndCol, Text.pieces_append absentLength, last]
  exact .seven (u32?_eq_some_iff.1 hStartLine) (u32?_eq_some_iff.1 hStartCol)
    (u32?_eq_some_iff.1 hEndLine) (u32?_eq_some_iff.1 hEndCol)
    (Text.Decimal.read?_eq_some_iff.1 hLength) (names_piece.2 (ident?_eq_some_iff.1 hIdent))

theorem ofChars?_of_decodes {cs : List Char} {r : Record}
    (h : Decodes ((pieces '\t' cs).take 7) r) : ofChars? cs = some r := by
  have cut := (List.take_append_drop 7 (pieces '\t' cs)).symm
  generalize (pieces '\t' cs).take 7 = front, (pieces '\t' cs).drop 7 = more at h cut
  obtain ⟨hStartLine, hStartCol, hEndLine, hEndCol, hLength, hIdent⟩ := h
  obtain ⟨rest, absentKind, rfl, afterKind⟩ := Text.eq_append_of_pieces cut
  obtain ⟨rest, absentStartLine, rfl, afterStartLine⟩ := Text.eq_append_of_pieces afterKind
  obtain ⟨rest, absentStartCol, rfl, afterStartCol⟩ := Text.eq_append_of_pieces afterStartLine
  obtain ⟨rest, absentEndLine, rfl, afterEndLine⟩ := Text.eq_append_of_pieces afterStartCol
  obtain ⟨rest, absentEndCol, rfl, afterEndCol⟩ := Text.eq_append_of_pieces afterEndLine
  obtain ⟨rest, absentLength, rfl, afterLength⟩ := Text.eq_append_of_pieces afterEndCol
  obtain ⟨_, last⟩ := Text.pieces_eq_cons '\t' rest
  obtain ⟨rfl, -⟩ := List.cons.inj (afterLength.symm.trans last)
  refine Option.bind_eq_some_iff.2 ⟨_, cutTab?_append absentKind _, ?_⟩
  refine Option.bind_eq_some_iff.2 ⟨_, cutTab?_append absentStartLine _, ?_⟩
  refine Option.bind_eq_some_iff.2 ⟨_, cutTab?_append absentStartCol _, ?_⟩
  refine Option.bind_eq_some_iff.2 ⟨_, cutTab?_append absentEndLine _, ?_⟩
  refine Option.bind_eq_some_iff.2 ⟨_, cutTab?_append absentEndCol _, ?_⟩
  refine Option.bind_eq_some_iff.2 ⟨_, cutTab?_append absentLength _, ?_⟩
  refine Option.bind_eq_some_iff.2 ⟨_, rfl, ?_⟩
  refine Option.bind_eq_some_iff.2 ⟨_, u32?_eq_some_iff.2 hStartLine, ?_⟩
  refine Option.bind_eq_some_iff.2 ⟨_, u32?_eq_some_iff.2 hStartCol, ?_⟩
  refine Option.bind_eq_some_iff.2 ⟨_, u32?_eq_some_iff.2 hEndLine, ?_⟩
  refine Option.bind_eq_some_iff.2 ⟨_, u32?_eq_some_iff.2 hEndCol, ?_⟩
  refine Option.bind_eq_some_iff.2 ⟨_, Text.Decimal.read?_eq_some_iff.2 hLength, ?_⟩
  exact Option.bind_eq_some_iff.2 ⟨_, ident?_eq_some_iff.2 (names_piece.1 hIdent), rfl⟩

theorem read?_eq_some_iff {line : String} {r : Record} :
    read? line = some r ↔ Decodes ((fields line).take 7) r :=
  ⟨decodes_of_ofChars?, ofChars?_of_decodes⟩

/-- A line without an eighth field is read exactly if its fields decode, so that a line with fewer
than seven is not read. Of any other line the first seven fields decide. -/
theorem read_by_fields (line : String) :
    (fields line).length = line.toList.count '\t' + 1 ∧
      (line.toList.count '\t' ≤ 6 → ∀ r, read? line = some r ↔ Decodes (fields line) r) ∧
      (line.toList.count '\t' < 6 → read? line = none) ∧
      ∀ r, read? line = some r ↔ Decodes ((fields line).take 7) r := by
  have count : (fields line).length = line.toList.count '\t' + 1 := Text.length_pieces ..
  refine ⟨count, fun few r => ?_, fun fewer => ?_, fun r => read?_eq_some_iff⟩
  · rw [read?_eq_some_iff, List.take_of_length_le (by omega)]
  · cases read : read? line with
    | none => rfl
    | some r =>
      have seven := (read?_eq_some_iff.1 read).length_eq
      rw [List.length_take] at seven
      omega

/-- A plus sign, zeros in front, and an identifier that its announced length cuts short. -/
def spelledOut : String := "f\t+1\t0\t007\t3\t3\tüRun x"

theorem spelledOut_read :
    spelledOut.toList.count '\t' ≤ 6 ∧
    Decodes (fields spelledOut) ⟨⟨'f'⟩, 1, 0, 7, 3, "üR"⟩ ∧
    "f\t1\t0\t1\t3\t3".toList.count '\t' < 6 ∧ read? "f\t1\t0\t1\t3\t3" = none := by
  have whole : spelledOut.toList.count '\t' ≤ 6 := by decide +kernel
  have short : "f\t1\t0\t1\t3\t3".toList.count '\t' < 6 := by decide +kernel
  have read : read? spelledOut = some ⟨⟨'f'⟩, 1, 0, 7, 3, "üR"⟩ := by decide +kernel
  obtain ⟨-, decoded, -⟩ := read_by_fields spelledOut
  obtain ⟨-, -, unread, -⟩ := read_by_fields "f\t1\t0\t1\t3\t3"
  exact ⟨whole, (decoded whole _).mp read, short, unread short⟩

/-- A line with eight fields that is read all the same. -/
theorem eighth_field_ignored :
    read? "f\t1\t0\t1\t3\t3\tRun\textra" = some ⟨⟨'f'⟩, 1, 0, 1, 3, "Run"⟩ ∧
      (fields "f\t1\t0\t1\t3\t3\tRun\textra").length = 8 ∧
      ¬∀ line r, read? line = some r ↔ Decodes (fields line) r := by
  have read : read? "f\t1\t0\t1\t3\t3\tRun\textra" = some ⟨⟨'f'⟩, 1, 0, 1, 3, "Run"⟩ := by
    decide +kernel
  have eight : (fields "f\t1\t0\t1\t3\t3\tRun\textra").length = 8 := by decide +kernel
  refine ⟨read, eight, fun strict => ?_⟩
  exact absurd (eight.symm.trans ((strict _ _).1 read).length_eq) (by decide)

end Record

end SemanticHighlight
