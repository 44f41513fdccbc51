import SemanticHighlight.Proofs.Record.Fields

/-!
# Records written and read back

A record is written as its seven fields between tabs. Written records, one on a line, are all found
again in the reply that lists them, and nothing else is. The other way round, what is read from a
line that is accepted can be written, though it may be shorter than the line: the identifier is the
beginning of what stands behind the sixth tab.
-/

set_option autoImplicit false

namespace SemanticHighlight

namespace Text

theorem Decimal.digits_eq_toDigits (n : Nat) : Decimal.digits n = Nat.toDigits 10 n := by
  have digit_eq : ∀ m : Fin 10, Decimal.digit m = Nat.digitChar m := by decide
  fun_induction Decimal.digits n with
  | case1 n small => rw [Nat.toDigits_of_lt_base small, digit_eq ⟨n, small⟩]
  | case2 n large ih =>
    have last : Decimal.digit n = Nat.digitChar (n % 10) := by
      rw [← digit_eq ⟨n % 10, Nat.mod_lt n (by decide)⟩]
      simp [Decimal.digit]
    rw [Nat.toDigits_eq_if (by decide), if_neg large, ih, last]

theorem byteLength_toList (s : String) : byteLength s.toList = s.utf8ByteSize := by
  rw [← length_bytes]
  rfl

theorem eq_append_of_pieces_append {sep : Char} {front : List (List Char)} {q : List Char}
    {more : List (List Char)} {cs : List Char} (nonempty : front ≠ [])
    (h : pieces sep cs = front ++ q :: more) :
    ∃ before after, cs = before ++ sep :: after ∧ before.count sep + 1 = front.length ∧
      pieces sep after = q :: more := by
  induction front generalizing cs with
  | nil => exact absurd rfl nonempty
  | cons p front ih =>
    cases front with
    | nil =>
      obtain ⟨after, absent, rfl, rest⟩ := eq_append_of_pieces h
      exact ⟨p, after, rfl, by simp [List.count_eq_zero.2 absent], rest⟩
    | cons p' front =>
      obtain ⟨rest, absent, rfl, cut⟩ := eq_append_of_pieces h
      obtain ⟨before, after, rfl, count, cutAfter⟩ := ih (by simp) cut
      refine ⟨p ++ sep :: before, after, by simp, ?_, cutAfter⟩
      rw [List.count_append, List.count_eq_zero.2 absent, List.count_cons_self]
      simp [← count]

end Text

namespace Record

open Text (byteLength isBlank pieces)
open Text.Decimal (Numeral)

def written (r : Record) : String :=
  String.intercalate "\t" [String.singleton r.kind.letter, toString r.startLine.toNat,
    toString r.startCol.toNat, toString r.endLine.toNat, toString r.endCol.toNat,
    toString r.ident.utf8ByteSize, r.ident]

theorem line_eq_written (r : Record) : r.line = written r := by
  apply String.toList_inj.1
  simp [line, row, written, Text.Decimal.digits_eq_toDigits, Text.byteLength_toList,
    Nat.toString_eq_repr, Nat.repr_eq_ofList_toDigits]

/-- A record that a line of a reply can carry: its kind ends neither a field nor a line. -/
structure Portable (r : Record) : Prop where
  tab : r.kind.letter ≠ '\t'
  feed : r.kind.letter ≠ '\n'
  whole : Whole r.ident.toList

theorem sortedLines_written {rs : List Record} (portable : ∀ r ∈ rs, Portable r) {payload : String}
    (listed : Lists (rs.map fun r => (written r).toList) payload.toList) :
    ((sortedLines payload).map read?).Perm (rs.map some) := by
  have lined : ∀ l ∈ rs.map line, Line l.toList := by
    intro l hl
    obtain ⟨r, hr, rfl⟩ := List.mem_map.1 hl
    exact line_of_record (portable r hr).feed (portable r hr).whole
  have lists : Lists ((rs.map line).map String.toList) payload.toList := by
    simpa [line_eq_written, Function.comp_def] using listed
  have read : (rs.map line).map read? = rs.map some := by
    rw [List.map_map]
    exact List.map_congr_left fun r hr => read?_line (portable r hr).tab (portable r hr).whole
  exact read ▸ (lists.sortedLines_perm lined).map read?

theorem Names.whole {announced : Nat} {field ident : List Char} (h : Names announced field ident) :
    Whole ident where
  nonempty := h.nonempty
  unbroken := by
    have inWord : ident <+: field.takeWhile (!isBlank ·) :=
      starts_of_byteLength_le h.starts (List.takeWhile_prefix _)
        (h.extent.trans_le (Nat.min_le_left ..))
    intro c hc
    simpa using List.all_eq_true.1 List.all_takeWhile c (inWord.subset hc)
  bounded := h.extent.trans_le ((Nat.min_le_right ..).trans (Nat.min_le_left ..))

theorem read?_cut {l : String} {r : Record} (read : read? l = some r) :
    r.kind.letter ≠ '\t' ∧
      ∃ front length after announced, l.toList = front ++ '\t' :: (length ++ '\t' :: after) ∧
        front.count '\t' = 4 ∧ '\t' ∉ length ∧ Numeral (2 ^ 64) length announced ∧
        Names announced after r.ident.toList := by
  have decoded := read?_eq_some_iff.1 read
  have cut : fields l = _ := (List.take_append_drop 7 (fields l)).symm
  generalize (fields l).take 7 = firsts, (fields l).drop 7 = more at decoded cut
  obtain @⟨kind, startLine, startCol, endLine, endCol, length, field, ident, _, _, _, _, announced,
    -, -, -, -, hLength, hIdent⟩ := decoded
  obtain ⟨_, absentKind, -, -⟩ := Text.eq_append_of_pieces cut
  have five : [[kind], startLine, startCol, endLine, endCol] ≠ [] := by simp
  obtain ⟨front, rest, spelled, count, cutRest⟩ := Text.eq_append_of_pieces_append five cut
  obtain ⟨after, absentLength, rfl, cutAfter⟩ := Text.eq_append_of_pieces cutRest
  obtain ⟨_, first⟩ := Text.pieces_eq_cons '\t' after
  obtain ⟨rfl, -⟩ := List.cons.inj (cutAfter.symm.trans first)
  refine ⟨by simpa [eq_comm] using absentKind, front, length, after, announced, spelled, ?_,
    absentLength, hLength, ?_⟩
  · simpa using count
  · rw [String.toList_ofList]
    exact names_piece.1 hIdent

/-- Written records are found again, each as often as it was written, in a reply that lists their
lines, and no line is refused. What is read from any line that is accepted has as its identifier a
beginning, without blanks, of the text behind the sixth tab, no longer than announced and than 1023
bytes, and once written it is read as the same record. -/
theorem written_records_read_back :
    (∀ (rs : List Record) (payload : String), (∀ r ∈ rs, Portable r) →
      Lists (rs.map fun r => (written r).toList) payload.toList →
      ((sortedLines payload).map read?).Perm (rs.map some)) ∧
    ∀ (l : String) (r : Record), read? l = some r →
      (∃ front length after announced, l.toList = front ++ '\t' :: (length ++ '\t' :: after) ∧
        front.count '\t' = 4 ∧ '\t' ∉ length ∧ Numeral (2 ^ 64) length announced ∧
        r.ident ≠ "" ∧ r.ident.toList <+: after ∧ (∀ c ∈ r.ident.toList, isBlank c = false) ∧
        r.ident.utf8ByteSize ≤ min 1023 announced) ∧
      read? (written r) = some r := by
  refine ⟨fun rs payload portable listed => sortedLines_written portable listed, ?_⟩
  intro l r read
  obtain ⟨tab, front, length, after, announced, spelled, count, absent, numeral, names⟩ :=
    read?_cut read
  constructor
  · refine ⟨front, length, after, announced, spelled, count, absent, numeral, ?_, names.starts,
      names.whole.unbroken, ?_⟩
    · rintro empty
      exact names.nonempty (by rw [empty]; rfl)
    · rw [← Text.byteLength_toList]
      exact names.extent.trans_le (Nat.min_le_right ..)
  · rw [← line_eq_written]
    exact read?_line tab names.whole

def carriedRecords : List Record := [
  ⟨⟨'\r'⟩, 4294967295, 0, 4294967295, 4294967295, "größer"⟩, ⟨⟨' '⟩, 1, 2, 3, 4, "x"⟩,
  ⟨⟨'\r'⟩, 4294967295, 0, 4294967295, 4294967295, "größer"⟩]

def carriedReply : String :=
  "\r\t4294967295\t0\t4294967295\t4294967295\t8\tgrößer\n \t1\t2\t3\t4\t1\tx\r\n" ++
    "\r\t4294967295\t0\t4294967295\t4294967295\t8\tgrößer"

theorem carriedReply_read_back :
    (∀ r ∈ carriedRecords, Portable r) ∧
    Lists (carriedRecords.map fun r => (written r).toList) carriedReply.toList ∧
    ((sortedLines carriedReply).map read?).Perm (carriedRecords.map some) ∧
    read? spelledOut = some ⟨⟨'f'⟩, 1, 0, 7, 3, "üR"⟩ ∧
    read? (written ⟨⟨'f'⟩, 1, 0, 7, 3, "üR"⟩) = some ⟨⟨'f'⟩, 1, 0, 7, 3, "üR"⟩ := by
  have portable : ∀ r ∈ carriedRecords, Portable r := by
    have each : ∀ r ∈ carriedRecords, r.kind.letter ≠ '\t' ∧ r.kind.letter ≠ '\n' ∧
      Whole r.ident.toList := by decide +kernel
    exact fun r hr => ⟨(each r hr).1, (each r hr).2.1, (each r hr).2.2⟩
  have spelled : carriedReply.toList =
      "\r\t4294967295\t0\t4294967295\t4294967295\t8\tgrößer".toList ++ '\n' ::
        (" \t1\t2\t3\t4\t1\tx".toList ++ '\r' :: '\n' ::
          "\r\t4294967295\t0\t4294967295\t4294967295\t8\tgrößer".toList) := by decide +kernel
  have lines : carriedRecords.map (fun r => (written r).toList) = [
      "\r\t4294967295\t0\t4294967295\t4294967295\t8\tgrößer".toList,
      " \t1\t2\t3\t4\t1\tx".toList,
      "\r\t4294967295\t0\t4294967295\t4294967295\t8\tgrößer".toList] := by decide +kernel
  have listed : Lists (carriedRecords.map fun r => (written r).toList) carriedReply.toList := by
    rw [lines, spelled]
    exact .feed _ (.returnFeed _ (.last _))
  have read : read? spelledOut = some ⟨⟨'f'⟩, 1, 0, 7, 3, "üR"⟩ := by decide +kernel
  obtain ⟨found, rewritten⟩ := written_records_read_back
  exact ⟨portable, listed, found _ _ portable listed, read, (rewritten _ _ read).2⟩

end Record

end SemanticHighlight
