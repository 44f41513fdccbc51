import SemanticHighlight.Proofs.Highlight.Chase
import SemanticHighlight.Proofs.Highlight.Convergence

/-!
# Token lists, whole and in parts

A classifier carries one thing from token to token: the kind of the cursor by which the last token
that was looked at was judged. Every token that is looked at overwrites it, and only a macro
definition reads it. So a list can be cut in two, and the second part read by a new classifier,
unless the first token that is looked at there is a macro definition; and tokens that are not looked
at can be left out.
-/

set_option autoImplicit false

namespace SemanticHighlight

theorem Batch.append_append (batch : Batch) (ops ops' : List Op) :
    (batch.append ops).append ops' = batch.append (ops ++ ops') := by
  rw [append, append, append, List.foldl_append]

namespace Classify

variable {Cursor Ty : Type}

/-- A token is highlighted in the group of its tag, if the tag is active and has one. -/
inductive Marks (table : GroupTable) (b : BufferId) (space : NamespaceId) :
    Token Cursor Ty × Option Classification × Option CursorKind → Op → Prop
  | highlight {token : Token Cursor Ty} {tag : Tag} {resolved : CursorKind}
    {last : Option CursorKind} {line : UInt32} {group : String} (inFile : token.line? = some line)
    (active : tag ∈ table.active) (mapped : table.groups.get? tag = some group) :
    Marks table b space (token, some ⟨some tag, resolved⟩, last)
      (.add b space group line.toNat token.start.toNat token.stop.toNat)

theorem op?_eq_some_iff {table : GroupTable} {b : BufferId} {space : NamespaceId}
    (x : Token Cursor Ty × Option Classification × Option CursorKind) (op : Op) :
    op? table b space x.1 x.2.1 = some op ↔ Marks table b space x op := by
  obtain ⟨token, result, last⟩ := x
  constructor
  · intro found
    unfold op? at found
    split at found
    · rename_i tag line tagged inFile
      obtain ⟨⟨tag?, resolved⟩, rfl, rfl⟩ := Option.bind_eq_some_iff.1 tagged
      obtain ⟨group, grouped, rfl⟩ := Option.map_eq_some_iff.1 found
      obtain ⟨active, mapped⟩ := GroupTable.group?_eq_some_iff.1 grouped
      exact .highlight inFile active mapped
    · cases found
  · rintro ⟨inFile, active, mapped⟩
    have grouped := GroupTable.group?_eq_some_iff.2 ⟨active, mapped⟩
    simp [op?, inFile, grouped, Op.highlight]

variable [DecidableEq Cursor]

def keptAfter (f : Frontend Cursor Ty) (table : GroupTable) (previous : Option CursorKind)
    (tokens : List (Token Cursor Ty)) : Option CursorKind :=
  tokens.foldl (fun kind token => kept kind (classify f table kind token)) previous

variable (f : Frontend Cursor Ty) (table : GroupTable) (b : BufferId) (space : NamespaceId)

theorem length_trace (previous : Option CursorKind) (tokens : List (Token Cursor Ty)) :
    (trace f table previous tokens).length = tokens.length := by
  induction tokens generalizing previous with
  | nil => rfl
  | cons token tokens ih => rw [trace, List.length_cons, List.length_cons, ih]

theorem opsFrom_append (previous : Option CursorKind) (xs ys : List (Token Cursor Ty)) :
    opsFrom f table b space previous (xs ++ ys) = opsFrom f table b space previous xs ++
      opsFrom f table b space (keptAfter f table previous xs) ys := by
  induction xs generalizing previous with
  | nil => rfl
  | cons token xs ih =>
    rw [List.cons_append, opsFrom, opsFrom, ih, List.append_assoc]
    rfl

theorem opsFrom_filter (previous : Option CursorKind) (tokens : List (Token Cursor Ty)) :
    opsFrom f table b space previous (tokens.filter (Seen table ·)) =
      opsFrom f table b space previous tokens := by
  induction tokens generalizing previous with
  | nil => rfl
  | cons token tokens ih =>
    by_cases seen : Seen table token
    · rw [List.filter_cons_of_pos (by simpa using seen), opsFrom, opsFrom, ih]
    · rw [List.filter_cons_of_neg (by simpa using seen), opsFrom, classify_unseen seen, ih]
      rfl

variable {f table}

/-- The token is not judged by a macro definition. -/
def Indifferent (f : Frontend Cursor Ty) (table : GroupTable) (token : Token Cursor Ty) : Prop :=
  ∀ c, Final f table.language token.cursor c → f.kind c ≠ .macroDefinition

theorem opsFrom_indifferent {tokens : List (Token Cursor Ty)}
    (first : ∀ token ∈ (tokens.filter (Seen table ·)).head?, Indifferent f table token)
    (previous previous' : Option CursorKind) :
    opsFrom f table b space previous tokens = opsFrom f table b space previous' tokens := by
  -- only the first token that is looked at meets the kept kind, and both keep its kind after it
  rw [← opsFrom_filter, ← opsFrom_filter f table b space previous']
  cases seen : tokens.filter (Seen table ·) with
  | nil => rfl
  | cons token rest =>
    have looked : Seen table token := by
      have mem : token ∈ tokens.filter (Seen table ·) := seen ▸ List.mem_cons_self
      exact of_decide_eq_true (List.mem_filter.1 mem).2
    obtain ⟨c, final⟩ := final_some f table.language token.cursor
    obtain ⟨t, told⟩ := tells_some f table.language previous token c
    have indifferent := first token (by rw [seen]; rfl) c final
    rw [opsFrom, opsFrom, classify_seen looked final told,
      classify_seen looked final (told.anyway indifferent)]
    rfl

/-- The operations held before are kept. What is added are highlights of the buffer in the
namespace, in the order of the tokens, one for each token whose tag is active and has a group and
none for any other. Tokens that are not looked at can be left out. A list can be cut in two before
any token that is looked at and not judged by a macro definition. -/
theorem stream_laws (f : Frontend Cursor Ty) (table : GroupTable) (b : BufferId)
    (space : NamespaceId) (batch : Batch) :
    (∀ tokens, ∃ added, (into f table b space tokens batch).1.toList = batch.toList ++ added ∧
      (into f table b space tokens batch).2 = added.length ∧
      (trace f table none tokens).length = tokens.length ∧
      Selected (Marks table b space) (tokens.zip (trace f table none tokens)) added) ∧
    (∀ tokens, into f table b space (tokens.filter (Seen table ·)) batch =
      into f table b space tokens batch) ∧
    ∀ xs ys, (∀ token ∈ (ys.filter (Seen table ·)).head?, Indifferent f table token) →
      (into f table b space (xs ++ ys) batch).1 =
        (into f table b space ys (into f table b space xs batch).1).1 ∧
      (into f table b space (xs ++ ys) batch).2 =
        (into f table b space xs batch).2 +
          (into f table b space ys (into f table b space xs batch).1).2 := by
  refine ⟨fun tokens => ?_, fun tokens => ?_, fun xs ys first => ?_⟩
  · exact ⟨ops f table b space tokens, toList_into .., rfl, length_trace ..,
      (selected_iff op?_eq_some_iff).2 (opsFrom_eq ..)⟩
  · rw [into, into, ops, ops, opsFrom_filter]
  · have parts : ops f table b space (xs ++ ys) =
        ops f table b space xs ++ ops f table b space ys := by
      rw [ops, opsFrom_append, opsFrom_indifferent b space first _ none]
      rfl
    constructor
    · exact (congrArg batch.append parts).trans (Batch.append_append ..).symm
    · exact (congrArg List.length parts).trans List.length_append

def macroTable : GroupTable :=
  .build .c "ds" [(.directives, "Macro"), (.structs, "Struct")] (.ofList ["struct"])

def macroFrontend : Frontend Nat Nat :=
  .ofTables #[⟨.preprocessingDirective, "define", "define", none⟩,
    ⟨.macroDefinition, "LIMIT", "LIMIT", none⟩, ⟨.structDecl, "Point", "Point", none⟩] #[]

def macroLine : List (Token Nat Nat) := [
  sampleToken 0 "define" (some 1) 1 7, sampleToken 1 "LIMIT" (some 1) 8 13]

def structLines : List (Token Nat Nat) := [
  sampleToken 1 "struct" (some 2) 0 6, sampleToken 2 "Point" (some 2) 7 12,
  sampleToken 1 "LIMIT" (some 3) 2 7]

theorem structLines_cut :
    (∀ token ∈ (structLines.filter (Seen macroTable ·)).head?,
      Indifferent macroFrontend macroTable token) ∧
    (into macroFrontend macroTable 1 5 (macroLine ++ structLines) .empty).1.toList =
      [.add 1 5 "Macro" 1 8 13, .add 1 5 "Struct" 2 7 12] := by
  have first : ∀ token ∈ (structLines.filter (Seen macroTable ·)).head?,
      Indifferent macroFrontend macroTable token := by
    intro token head c final
    have cursors : (structLines.filter (Seen macroTable ·)).map Token.cursor = [2, 1] := by
      decide +kernel
    have cursor : token.cursor = 2 := by
      have heads := congrArg List.head? cursors
      rw [List.head?_map, Option.mem_def.1 head] at heads
      exact Option.some.inj heads
    cases final with
    | own base =>
      rw [cursor]
      decide
    | led other leads => exact absurd rfl other
  have computed : (into macroFrontend macroTable 1 5 structLines
      (into macroFrontend macroTable 1 5 macroLine .empty).1).1.toList =
      [.add 1 5 "Macro" 1 8 13, .add 1 5 "Struct" 2 7 12] := by decide +kernel
  obtain ⟨-, -, parts⟩ := stream_laws macroFrontend macroTable 1 5 .empty
  exact ⟨first, (congrArg Batch.toList (parts macroLine structLines first).1).trans computed⟩

end Classify

end SemanticHighlight
