import Mathlib.Data.List.TakeWhile
import SemanticHighlight.Proofs.Record.Fields
import SemanticHighlight.Proofs.Tokenizer.Entries
import SemanticHighlight.Proofs.Tokenizer.Scan

/-!
# What the records of a reply point at

Every line of a reply is read as a record, and the record points at an identifier of the source text:
at a line of it, and at the bytes of an identifier between two positions of that line. The numbers of
lines and the lengths of lines have to be below 2³², since a record has no room for more. An
identifier of more than 1023 bytes is cut in the record, not in its positions.
-/

set_option autoImplicit false

namespace SemanticHighlight.Tokenizer

open Text (encoded byteLength isBlank)
open Text.Decimal (digits Numeral)

/-- Between two positions of a line stands a name, and it ends there. -/
structure Identifies (bs : Bytes) (start stop : Nat) (name : Bytes) : Prop where
  ordered : start < stop
  inside : stop ≤ bs.length
  cut : slice? bs start stop = some name
  spelled : ∃ b more, name = b :: more ∧ startsByte b = true ∧ ∀ c ∈ more, continuesByte c = true
  ends : ∀ b, bs[stop]? = some b → continuesByte b = false

/-- The record is about an identifier on one of the lines. -/
structure PointsAt (ls : List (List Char)) (r : Record) : Prop where
  single : r.startLine = r.endLine
  names : ∃ l name, ls[r.startLine.toNat]? = some l ∧
    Identifies (encoded l) r.startCol.toNat r.endCol.toNat name ∧
    Text.bytes r.ident = name.take 1023

def EndsBefore (r s : Record) : Prop :=
  r.endLine < s.startLine ∨ r.endLine = s.startLine ∧ r.endCol < s.startCol

theorem Word.Spelled.take_encoded {w : Word} (h : w.Spelled) (n : Nat) :
    encoded (w.text.take n) = (encoded w.text).take n := by
  have front : encoded (w.text.take n) <+: encoded w.text :=
    ⟨encoded (w.text.drop n), by rw [← Text.encoded_append, List.take_append_drop]⟩
  have length : (encoded (w.text.take n)).length = min n w.text.length := by
    rw [Text.length_encoded, byteLength_of_continues, List.length_take]
    exact fun c hc => h.continues c (List.mem_of_mem_take hc)
  rw [List.prefix_iff_eq_take.1 front, length, List.take_eq_take_iff, Text.length_encoded,
    byteLength_of_continues h.continues]
  omega

theorem identifies_of_mem {l : List Char} {w : Word} (h : w ∈ words l) :
    Identifies (encoded l) w.column w.stop (encoded w.text) := by
  have spelled := words_spelled h
  obtain ⟨front, parts, column⟩ := words_parts h
  have line : encoded l = encoded front ++ (encoded w.text ++ encoded w.rest) := by
    rw [parts, Text.encoded_append, Text.encoded_append]
  have start : (encoded front).length = w.column := by rw [Text.length_encoded, column]
  have stop : (encoded front).length + (encoded w.text).length = w.stop := by
    rw [spelled.stop_eq, start, Text.length_encoded]
  have cut := slice?_encoded front w.text w.rest
  rw [← line, stop, start] at cut
  refine ⟨spelled.column_lt_stop, ?_, cut, ?_, ?_⟩
  · rw [line, List.length_append, List.length_append, ← stop]
    omega
  · obtain ⟨b, bs, text, starts⟩ := spelled.startsByte_text
    exact ⟨b, bs, text, starts, fun c hc =>
      spelled.continuesByte_text c (text ▸ List.mem_cons_of_mem b hc)⟩
  · intro b hb
    apply spelled.continuesByte_rest b
    rw [line, ← stop, ← List.append_assoc, ← List.length_append, List.getElem?_append_right
      (Nat.le_refl _), Nat.sub_self] at hb
    rwa [List.head?_eq_getElem?]

theorem isBlank_of_continues {c : Char} (h : continuesWord c = true) : isBlank c = false := by
  rw [continues_iff] at h
  simp only [isBlank, Bool.or_eq_false_iff, Bool.and_eq_false_iff, decide_eq_false_iff_not]
  omega

theorem Word.Spelled.names {w : Word} (h : w.Spelled) :
    Record.Names (byteLength w.text) w.text (w.text.take 1023) where
  nonempty := by
    obtain ⟨c, cs, text, -⟩ := h.starts
    simp [text]
  starts := List.take_prefix ..
  extent := by
    have whole : w.text.takeWhile (!isBlank ·) = w.text := by
      rw [List.takeWhile_eq_self_iff]
      intro c hc
      rw [isBlank_of_continues (h.continues c hc)]
      rfl
    have taken : ∀ c ∈ w.text.take 1023, continuesWord c = true :=
      fun c hc => h.continues c (List.mem_of_mem_take hc)
    rw [whole, byteLength_of_continues h.continues, byteLength_of_continues taken,
      List.length_take]
    omega

theorem numeral_digits {bound n : Nat} (h : n < bound) : Numeral bound (digits n) n :=
  Text.Decimal.read?_eq_some_iff.1 (Text.Decimal.read?_digits h)

namespace Entry

def record (e : Entry) : Record where
  kind := e.tag
  startLine := UInt32.ofNat e.line
  startCol := UInt32.ofNat e.word.column
  endLine := UInt32.ofNat e.line
  endCol := UInt32.ofNat e.word.stop
  ident := String.ofList (e.word.text.take 1023)

structure Fits (e : Entry) : Prop where
  line : e.line < 2 ^ 32
  stop : e.word.stop < 2 ^ 32

variable {e : Entry}

theorem Fits.column (h : e.Fits) : e.word.column < 2 ^ 32 :=
  Nat.lt_of_le_of_lt (Nat.le_add_right ..) h.stop

theorem Fits.line_eq (h : e.Fits) : (UInt32.ofNat e.line).toNat = e.line :=
  UInt32.toNat_ofNat_of_lt' h.line

theorem Fits.column_eq (h : e.Fits) : (UInt32.ofNat e.word.column).toNat = e.word.column :=
  UInt32.toNat_ofNat_of_lt' h.column

theorem Fits.stop_eq (h : e.Fits) : (UInt32.ofNat e.word.stop).toNat = e.word.stop :=
  UInt32.toNat_ofNat_of_lt' h.stop

theorem Sound.read?_text (sound : e.Sound) (fits : e.Fits) :
    Record.read? (String.ofList e.text) = some e.record := by
  have length : byteLength e.word.text < 2 ^ 64 := by
    have stop := fits.stop
    rw [sound.spelled.stop_eq] at stop
    omega
  have number : ∀ {n : Nat}, n < 2 ^ 32 → Numeral (2 ^ 32) (digits n) (UInt32.ofNat n).toNat :=
    fun below => by rw [UInt32.toNat_ofNat_of_lt' below]; exact numeral_digits below
  rw [Record.read?_eq_some_iff, Record.fields, String.toList_ofList, sound.pieces_text]
  exact .seven (number fits.line) (number fits.column) (number fits.line) (number fits.stop)
    (numeral_digits length) sound.spelled.names

theorem Before.endsBefore {f : Entry} (h : e.Before f) (he : e.Fits) (hf : f.Fits) :
    EndsBefore e.record f.record := by
  simp only [EndsBefore, record, UInt32.lt_iff_toNat_lt, ← UInt32.toNat_inj, he.line_eq, hf.line_eq,
    he.stop_eq, hf.column_eq]
  exact h

end Entry

section Reply

variable {source : String}
  (few : (Text.lines source.toList).length < 2 ^ 32)
  (short : ∀ l ∈ Text.lines source.toList, byteLength l < 2 ^ 32)

include few short in
theorem fits_of_mem {e : Entry} (h : e ∈ entriesFrom 0 (Text.lines source.toList)) : e.Fits := by
  obtain ⟨-, i, l, line, found, member⟩ := mem_entriesFrom h
  have below := (List.getElem?_eq_some_iff.1 found).1
  have inside := (identifies_of_mem member).inside
  have bounded := short l (List.mem_of_getElem? found)
  rw [Text.length_encoded] at inside
  exact ⟨by omega, by omega⟩

include few short in
theorem pointsAt_of_mem {e : Entry} (h : e ∈ entriesFrom 0 (Text.lines source.toList)) :
    PointsAt (Text.lines source.toList) e.record := by
  have fits := fits_of_mem few short h
  obtain ⟨sound, i, l, line, found, member⟩ := mem_entriesFrom h
  refine ⟨rfl, l, encoded e.word.text, ?_, ?_, ?_⟩
  · have number : (UInt32.ofNat e.line).toNat = i := by rw [fits.line_eq, line, Nat.zero_add]
    rwa [Entry.record, number]
  · rw [Entry.record, fits.column_eq, fits.stop_eq]
    exact identifies_of_mem member
  · rw [Entry.record, Text.bytes_ofList, sound.spelled.take_encoded]

end Reply

/-- Every line of the reply is read. The records point at identifiers of the source text, in the
order in which these stand there, and no two of them overlap. Each line of the source text is scanned
to its end, and no cut is made outside it or inside a character. -/
theorem records_point_at_source (source : String)
    (few : (Text.lines source.toList).length < 2 ^ 32)
    (short : ∀ l ∈ Text.lines source.toList, byteLength l < 2 ^ 32) :
    ∃ records : List Record,
      (Text.lines (tokenize source).toList).map (fun l => Record.read? (String.ofList l)) =
        records.map some ∧
      (∀ r ∈ records, PointsAt (Text.lines source.toList) r) ∧
      records.Pairwise EndsBefore ∧
      ∀ l ∈ Text.lines source.toList,
        scan? (encoded l) 0 = some ((words l).map Word.found) := by
  refine ⟨(entriesFrom 0 (Text.lines source.toList)).map Entry.record, ?_, ?_, ?_,
    fun l _ => scan?_line l⟩
  · rw [lines_tokenize, List.map_map, List.map_map]
    exact List.map_congr_left fun e he =>
      (mem_entriesFrom he).1.read?_text (fits_of_mem few short he)
  · exact List.forall_mem_map.2 fun e he => pointsAt_of_mem few short he
  · refine List.pairwise_map.2 ((entriesFrom_ordered 0 _).imp_of_mem fun he hf before => ?_)
    exact before.endsBefore (fits_of_mem few short he) (fits_of_mem few short hf)

def mixedLines : String := "struct Foo \x7b\r\n  é.Bar(MAX_1); naïve\r"

def mixedRecords : List Record :=
  [⟨.structs, 0, 7, 0, 10, "Foo"⟩, ⟨.functions, 1, 5, 1, 8, "Bar"⟩,
    ⟨.directives, 1, 9, 1, 14, "MAX_1"⟩]

theorem mixedRecords_point :
    (Text.lines mixedLines.toList).length < 2 ^ 32 ∧
    (∀ l ∈ Text.lines mixedLines.toList, byteLength l < 2 ^ 32) ∧
    (Text.lines (tokenize mixedLines).toList).map (fun l => Record.read? (String.ofList l)) =
      mixedRecords.map some ∧
    (∀ r ∈ mixedRecords, PointsAt (Text.lines mixedLines.toList) r) ∧
    mixedRecords.Pairwise EndsBefore := by
  have few : (Text.lines mixedLines.toList).length < 2 ^ 32 := by decide +kernel
  have short : ∀ l ∈ Text.lines mixedLines.toList, byteLength l < 2 ^ 32 := by decide +kernel
  have found : (Text.lines (tokenize mixedLines).toList).map
      (fun l => Record.read? (String.ofList l)) = mixedRecords.map some := by decide +kernel
  obtain ⟨records, read, points, ordered, -⟩ := records_point_at_source mixedLines few short
  have same : records = mixedRecords :=
    (List.map_inj_right fun _ _ => Option.some.inj).1 (read.symm.trans found)
  subst same
  exact ⟨few, short, found, points, ordered⟩

end SemanticHighlight.Tokenizer
