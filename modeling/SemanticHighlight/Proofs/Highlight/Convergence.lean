import Mathlib.Data.List.Basic
import SemanticHighlight.Proofs.Highlight.Adds
import SemanticHighlight.Proofs.Record.Rows

/-!
# Tokens and records

Highlights come from a frontend's tokens or from a worker's records. A worker that wrote one record
for each token that gets a tag, in any order, would be understood as the tokens are: the same
highlights are added, and as many.
-/

set_option autoImplicit false

namespace SemanticHighlight.Classify

variable {Cursor Ty : Type} [DecidableEq Cursor]

def Finding.Lettered : Finding Cursor → Prop
  | .tag (some t) => t.letter.isAlpha = true
  | _ => True

theorem look_lettered (f : Frontend Cursor Ty) (base : Bool) (previous : Option CursorKind)
    (token : Token Cursor Ty) (mayFollow : Bool) (c : Cursor) :
    (look f base previous token mayFollow c).Lettered := by
  unfold look
  repeat' split
  all_goals first | exact rfl | exact trivial

theorem decideOn_lettered {f : Frontend Cursor Ty} {base : Bool} {previous : Option CursorKind}
    {token : Token Cursor Ty} (hops : Nat) (c : Cursor) {tag : Tag}
    (h : (decideOn f base previous token hops c).2 = some tag) : tag.letter.isAlpha = true := by
  have lettered {mayFollow : Bool} {c : Cursor} {t : Option Tag}
      (found : look f base previous token mayFollow c = .tag t) (ht : t = some tag) :
      tag.letter.isAlpha = true := by
    have letter := look_lettered f base previous token mayFollow c
    rwa [found, ht] at letter
  fun_induction decideOn f base previous token hops c with
  | case1 c t found => exact lettered found h
  | case3 c hops t found => exact lettered found h
  | case2 c next found => cases h
  | case4 c hops next found ih => exact ih h

theorem classify_tagged {f : Frontend Cursor Ty} {table : GroupTable}
    {previous : Option CursorKind} {token : Token Cursor Ty} {tag : Tag}
    (h : (classify f table previous token).bind Classification.tag? = some tag) :
    token.line?.isSome = true ∧ table.isIgnored token.text = false ∧
      tag.letter.isAlpha = true := by
  rw [classify] at h
  split at h
  · cases h
  · rename_i seen
    simp only [Bool.or_eq_true, not_or, Bool.not_eq_true, Option.isNone_eq_false_iff] at seen
    exact ⟨seen.1, seen.2, decideOn_lettered maxHops token.cursor h⟩

def tagged (f : Frontend Cursor Ty) (table : GroupTable) (tokens : List (Token Cursor Ty)) :
    List (Token Cursor Ty × Tag) :=
  (tokens.zip (trace f table none tokens)).filterMap fun x =>
    (x.2.1.bind Classification.tag?).map (x.1, ·)

def record? : Token Cursor Ty × Tag → Option Record
  | (token, tag) =>
    token.line?.map fun line => ⟨tag, line, token.start, line, token.stop, token.text⟩

def records (f : Frontend Cursor Ty) (table : GroupTable) (tokens : List (Token Cursor Ty)) :
    List Record :=
  (tagged f table tokens).filterMap record?

theorem classified_of_mem {f : Frontend Cursor Ty} {table : GroupTable}
    {tokens : List (Token Cursor Ty)} {previous last : Option CursorKind}
    {token : Token Cursor Ty} {result : Option Classification}
    (h : (token, result, last) ∈ tokens.zip (trace f table previous tokens)) :
    ∃ earlier, result = classify f table earlier token := by
  induction tokens generalizing previous with
  | nil => cases h
  | cons t tokens ih =>
    rcases List.mem_cons.mp h with same | h
    · cases same
      exact ⟨previous, rfl⟩
    · exact ih h

theorem tagged_spec {f : Frontend Cursor Ty} {table : GroupTable} {tokens : List (Token Cursor Ty)}
    {token : Token Cursor Ty} {tag : Tag} (h : (token, tag) ∈ tagged f table tokens) :
    token.line?.isSome = true ∧ table.isIgnored token.text = false ∧
      tag.letter.isAlpha = true := by
  obtain ⟨⟨t, result, last⟩, hx, found⟩ := List.mem_filterMap.mp h
  obtain ⟨earlier, rfl⟩ := classified_of_mem hx
  obtain ⟨tag', ht, same⟩ := Option.map_eq_some_iff.mp found
  cases same
  exact classify_tagged ht

theorem map_record? (f : Frontend Cursor Ty) (table : GroupTable)
    (tokens : List (Token Cursor Ty)) :
    (tagged f table tokens).map record? = (records f table tokens).map some := by
  have all : ∀ x ∈ tagged f table tokens, (record? x).isSome = true := fun x hx => by
    simpa [record?] using (tagged_spec hx).1
  rw [records]
  generalize tagged f table tokens = xs at all
  induction xs with
  | nil => rfl
  | cons x xs ih =>
    obtain ⟨r, hr⟩ := Option.isSome_iff_exists.mp (all x List.mem_cons_self)
    rw [List.map_cons, List.filterMap_cons_some hr, List.map_cons, hr,
      ih fun y hy => all y (List.mem_cons_of_mem x hy)]

def highlight? (table : GroupTable) (b : BufferId) (space : NamespaceId) (r : Record) : Option Op :=
  (table.group? r.kind).map fun group => .highlight b space group r.span

theorem opsFrom_eq (f : Frontend Cursor Ty) (table : GroupTable) (b : BufferId)
    (space : NamespaceId) (previous : Option CursorKind) (tokens : List (Token Cursor Ty)) :
    opsFrom f table b space previous tokens =
      (tokens.zip (trace f table previous tokens)).filterMap fun x =>
        op? table b space x.1 x.2.1 := by
  induction tokens generalizing previous with
  | nil => rfl
  | cons token tokens ih =>
    rw [opsFrom, ih, trace, List.zip_cons_cons, List.filterMap_cons]
    cases op? table b space token (classify f table previous token) <;> rfl

theorem ops_eq_records (f : Frontend Cursor Ty) (table : GroupTable) (b : BufferId)
    (space : NamespaceId) (tokens : List (Token Cursor Ty)) :
    ops f table b space tokens =
      (records f table tokens).filterMap (highlight? table b space) := by
  rw [ops, opsFrom_eq, records, tagged, List.filterMap_filterMap, List.filterMap_filterMap]
  apply List.filterMap_congr
  rintro ⟨token, result, last⟩ -
  unfold op?
  cases ht : result.bind Classification.tag? with
  | none => rfl
  | some tag => cases hl : token.line? <;> simp [record?, highlight?, hl, Record.span]

theorem op?_line {f : Frontend Cursor Ty} {table : GroupTable} (b : BufferId)
    (space : NamespaceId) {tokens : List (Token Cursor Ty)}
    (whole : ∀ x ∈ tagged f table tokens, Record.Whole x.1.text.toList) {r : Record}
    (h : r ∈ records f table tokens) :
    Record.Line r.line.toList ∧ Record.op? table b space r.line = highlight? table b space r := by
  obtain ⟨⟨token, tag⟩, hx, hr⟩ := List.mem_filterMap.mp h
  obtain ⟨line, hl, rfl⟩ := Option.map_eq_some_iff.mp hr
  obtain ⟨-, heeded, letter⟩ := tagged_spec hx
  have other (c : Char) (hc : c.isAlpha = false) : tag.letter ≠ c := by
    rintro rfl
    rw [letter] at hc
    cases hc
  refine ⟨Record.line_of_record (other '\n' rfl) (whole _ hx), ?_⟩
  rw [Record.op?, Record.read?_line (other '\t' rfl) (whole _ hx)]
  simp only [heeded, Bool.false_eq_true, if_false, highlight?]

/-- A reply with one record for each token that has a tag, in any order, adds the highlights the
tokens add, in some order, and counts as many. -/
theorem reply_of_records (f : Frontend Cursor Ty) (table : GroupTable) (b : BufferId)
    (space : NamespaceId) (tokens : List (Token Cursor Ty))
    (whole : ∀ x ∈ tagged f table tokens, Record.Whole x.1.text.toList)
    {lines : List String} (shuffled : lines.Perm ((records f table tokens).map Record.line))
    {payload : String} (listed : Record.Lists (lines.map String.toList) payload.toList)
    (batch batch' : Batch) :
    (tagged f table tokens).map record? = (records f table tokens).map some ∧
    (Record.into table b space payload batch).2 = (into f table b space tokens batch').2 ∧
    ∃ replied classified,
      (Record.into table b space payload batch).1.toList = batch.toList ++ replied ∧
      (into f table b space tokens batch').1.toList = batch'.toList ++ classified ∧
      replied.Perm classified ∧ ∀ op ∈ replied, op.AddsTo b space := by
  have known {r : Record} (h : r ∈ records f table tokens) := op?_line b space whole h
  have lined : ∀ l ∈ lines, Record.Line l.toList := by
    intro l hl
    obtain ⟨r, hr, rfl⟩ := List.mem_map.mp (shuffled.mem_iff.mp hl)
    exact (known hr).1
  have same : ((records f table tokens).map Record.line).filterMap (Record.op? table b space) =
      ops f table b space tokens := by
    rw [ops_eq_records, List.filterMap_map]
    refine List.filterMap_congr fun r hr => ?_
    rw [Function.comp_apply, (known hr).2]
  have perm : (Record.ops table b space payload).Perm (ops f table b space tokens) :=
    same ▸ ((listed.sortedLines_perm lined).trans shuffled).filterMap _
  exact ⟨map_record? f table tokens, perm.length_eq, _, _, Record.toList_into ..,
    toList_into .., perm, Record.ops_add_to table b space payload⟩

def sampleTable : GroupTable :=
  .build .cpp "sf" [(.structs, "Type"), (.functions, "Function")] (.ofList ["main"])

def sampleFrontend : Frontend Nat Nat :=
  .ofTables #[⟨.typeRef, "Größe", "Größe", some 1⟩, ⟨.structDecl, "Größe", "Größe", none⟩,
    ⟨.functionDecl, "main", "main()", none⟩, ⟨.memberRef, "x", "x", none⟩] #[]

def sampleToken (cursor : Nat) (text : String) (line? : Option UInt32) (start stop : UInt32) :
    Token Nat Nat :=
  { cursor, type? := none, kind := .identifier, text, line?, start, stop }

def sampleTokens : List (Token Nat Nat) := [
  sampleToken 0 "Größe" (some 12) 4 11, sampleToken 2 "main" (some 12) 12 16,
  sampleToken 3 "x" (some 7) 0 1, sampleToken 2 "run" none 0 3, sampleToken 2 "run" (some 9) 0 3]

def sampleLines : List String := [
  "f\t9\t0\t9\t3\t3\trun", "s\t12\t4\t12\t11\t7\tGröße", "m\t7\t0\t7\t1\t1\tx"]

def sampleReply : String :=
  "f\t9\t0\t9\t3\t3\trun\r\ns\t12\t4\t12\t11\t7\tGröße\nm\t7\t0\t7\t1\t1\tx"

theorem sampleReply_of_records :
    (Record.into sampleTable 1 5 sampleReply .empty).2 = 2 ∧
    (Record.into sampleTable 1 5 sampleReply .empty).1.toList.Perm
      [.add 1 5 "Type" 12 4 11, .add 1 5 "Function" 9 0 3] := by
  have whole : ∀ x ∈ tagged sampleFrontend sampleTable sampleTokens,
      Record.Whole x.1.text.toList := by decide +kernel
  have shuffled : sampleLines.Perm
      ((records sampleFrontend sampleTable sampleTokens).map Record.line) := by decide +kernel
  have spelled : sampleReply.toList = "f\t9\t0\t9\t3\t3\trun".toList ++ '\r' :: '\n' ::
      ("s\t12\t4\t12\t11\t7\tGröße".toList ++ '\n' :: "m\t7\t0\t7\t1\t1\tx".toList) := by
    decide +kernel
  have listed : Record.Lists (sampleLines.map String.toList) sampleReply.toList := by
    rw [spelled]
    exact .returnFeed _ (.feed _ (.last _))
  have classified : (into sampleFrontend sampleTable 1 5 sampleTokens .empty).1.toList =
    [.add 1 5 "Type" 12 4 11, .add 1 5 "Function" 9 0 3] := by decide +kernel
  have count : (into sampleFrontend sampleTable 1 5 sampleTokens .empty).2 = 2 := by decide +kernel
  obtain ⟨-, same, replied, ops, reply, tokens, perm, -⟩ := reply_of_records sampleFrontend
    sampleTable 1 5 sampleTokens whole shuffled listed .empty .empty
  refine ⟨same.trans count, ?_⟩
  rw [reply, ← classified, tokens]
  exact perm.append_left _

end SemanticHighlight.Classify
