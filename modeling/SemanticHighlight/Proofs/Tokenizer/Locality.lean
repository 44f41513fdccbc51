import SemanticHighlight.Proofs.Tokenizer.Entries

/-!
# The tokenizer reads line by line

What the tokenizer reports of a line depends on that line alone: no word is looked for across a line
feed, neither the word before nor an opening parenthesis. So the reply to two texts with a line feed
between them is the reply to the one and then the reply to the other, whose records have moved down
by the lines in front. A carriage return at the end of the first text belongs to its last line in the
one case and not in the other; the tokenizer does not see the difference.
-/

set_option autoImplicit false

namespace SemanticHighlight.Tokenizer

open Text (pieces)
open Text.Decimal (digits value)

def movedNumber (k : Nat) (field : List Char) : List Char := digits (value field + k)

def movedFields (k : Nat) : List (List Char) → List (List Char)
  | [kind, startLine, startCol, endLine, endCol, length, ident] =>
    [kind, movedNumber k startLine, startCol, movedNumber k endLine, endCol, length, ident]
  | fields => fields

def movedLine (k : Nat) (line : List Char) : List Char :=
  ['\t'].intercalate (movedFields k (pieces '\t' line))

/-- A reply with both line numbers of every record increased. -/
def moved (k : Nat) (reply : String) : String :=
  String.ofList ((Text.lines reply.toList).flatMap (movedLine k · ++ ['\n']))

def Entry.moved (k : Nat) (e : Entry) : Entry := { e with line := e.line + k }

theorem Entry.intercalate_fields (e : Entry) : ['\t'].intercalate e.fields = e.text := by
  rw [text, Record.row_eq]
  simp [fields, List.intercalate]

theorem Entry.Sound.movedLine_text {e : Entry} (h : e.Sound) (k : Nat) :
    movedLine k e.text = (e.moved k).text := by
  have fields : movedFields k e.fields = (e.moved k).fields := by
    simp only [Entry.fields, movedFields, movedNumber, Text.Decimal.value_digits]
    rfl
  rw [movedLine, h.pieces_text, fields, Entry.intercalate_fields]

theorem entriesOn_moved (k line : Nat) (previous : Option (List Char)) (ws : List Word) :
    entriesOn (line + k) previous ws = (entriesOn line previous ws).map (·.moved k) := by
  induction ws generalizing previous with
  | nil => rfl
  | cons w ws ih =>
    rw [entriesOn, entriesOn, List.map_append, ih]
    cases kind? previous w <;> rfl

theorem entriesFrom_moved (k line : Nat) (ls : List (List Char)) :
    entriesFrom (line + k) ls = (entriesFrom line ls).map (·.moved k) := by
  induction ls generalizing line with
  | nil => rfl
  | cons l ls ih =>
    rw [entriesFrom, entriesFrom, List.map_append, entriesOn_moved, ← ih, Nat.add_right_comm]

theorem toList_moved (k : Nat) (source : String) :
    (moved k (tokenize source)).toList = (rowsFrom k (Text.lines source.toList)).flatten := by
  have lines : entriesFrom k (Text.lines source.toList) =
      (entriesFrom 0 (Text.lines source.toList)).map (·.moved k) := by
    rw [← entriesFrom_moved, Nat.zero_add]
  have written : ∀ e ∈ entriesFrom 0 (Text.lines source.toList),
      movedLine k e.text ++ ['\n'] = (e.moved k).text ++ ['\n'] :=
    fun e he => by rw [(mem_entriesFrom he).1.movedLine_text]
  rw [moved, String.toList_ofList, lines_tokenize, List.flatMap_map, List.flatMap_def,
    List.map_congr_left written, rowsFrom_eq, lines, List.map_map]
  rfl

theorem rowsFrom_append (line : Nat) (ls ms : List (List Char)) :
    rowsFrom line (ls ++ ms) = rowsFrom line ls ++ rowsFrom (line + ls.length) ms := by
  induction ls generalizing line with
  | nil => rfl
  | cons l ls ih =>
    rw [List.cons_append, rowsFrom, rowsFrom, ih, List.append_assoc, List.length_cons,
      Nat.add_assoc, Nat.add_comm 1]

theorem lineRows_nil (line : Nat) : lineRows line [] = [] := by
  rw [lineRows, words, wordsFrom, rows]

theorem rowsFrom_dropReturn (line : Nat) (ps : List (List Char)) :
    rowsFrom line (ps.map Text.dropReturn) = rowsFrom line (Text.endLines ps) := by
  fun_induction Text.endLines ps generalizing line with
  | case1 => rfl
  | case2 => exact congrArg (· ++ []) (lineRows_nil line)
  | case3 rest nonempty =>
    rw [List.map_singleton, rowsFrom, rowsFrom, rowsFrom, rowsFrom, lineRows_dropReturn]
  | case4 p ps _ ih => rw [List.map_cons, rowsFrom, rowsFrom, ih]

theorem tokenize_append_feed (a b : String) :
    tokenize (a ++ "\n" ++ b) = tokenize a ++ moved (a.toList.count '\n' + 1) (tokenize b) := by
  have lines : Text.lines (a ++ "\n" ++ b).toList =
      (pieces '\n' a.toList).map Text.dropReturn ++ Text.lines b.toList := by
    have feed : (a ++ "\n" ++ b).toList = a.toList ++ '\n' :: b.toList := by simp
    rw [feed, Text.lines, Text.pieces_join, Text.endLines_append _ (Text.pieces_ne_nil '\n' _),
      Text.lines]
  apply String.toList_inj.1
  rw [String.toList_append, toList_moved, tokenize, tokenize, String.toList_ofList,
    String.toList_ofList, lines, rowsFrom_append, List.flatten_append, rowsFrom_dropReturn,
    List.length_map, Text.length_pieces, Nat.zero_add]
  rfl

example : tokenize ("struct\r" ++ "\n" ++ "é Run\n(x) Go()") =
    "" ++ moved 1 "f\t1\t4\t1\t6\t2\tGo\n" := by
  decide +kernel

end SemanticHighlight.Tokenizer
