import Mathlib.Data.List.Forall2
import SemanticHighlight.Proofs.Highlight.Adds
import SemanticHighlight.Proofs.Highlight.Selection
import SemanticHighlight.Proofs.Text.Lines

/-!
# Reading a reply

What a reply stands for: its lines, in the order of their bytes, each with the highlight it gives if
it gives one. A reader finds exactly that. Since the order of the bytes leaves no choice, replies
that have their usable lines in common stand for the same highlights, whatever else they hold and
however they are laid out.
-/

set_option autoImplicit false

namespace SemanticHighlight.Record

/-- The text of a line, as it stands before a line feed or at the end: a carriage return behind it
does not belong to it. -/
inductive Bears : List Char → List Char → Prop
  | bare {l : List Char} (h : l.getLast? ≠ some '\r') : Bears l l
  | returned (l : List Char) : Bears (l ++ ['\r']) l

def Holds (payload : String) (lines : List String) : Prop :=
  ∃ texts, List.Forall₂ Bears (payload.toList.splitOn '\n') texts ∧
    lines = (texts.filter (· ≠ [])).map String.ofList

/-- A line gives a highlight if it is read as a record whose identifier is not ignored and whose
kind is active and has a group. -/
inductive Gives (table : GroupTable) (b : BufferId) (space : NamespaceId) : String → Op → Prop
  | highlight {line : String} {r : Record} {group : String} (read : read? line = some r)
    (heeded : r.ident ∉ table.ignored.words) (active : r.kind ∈ table.active)
    (mapped : table.groups.get? r.kind = some group) :
    Gives table b space line
      (.add b space group r.startLine.toNat r.startCol.toNat r.endCol.toNat)

def StandsFor (table : GroupTable) (b : BufferId) (space : NamespaceId) (payload : String)
    (ops : List Op) : Prop :=
  ∃ lines sorted, Holds payload lines ∧ sorted.Perm lines ∧
    sorted.Pairwise (fun s t => Text.bytes s ≤ Text.bytes t) ∧
    Selected (Gives table b space) sorted ops

theorem bears_iff {l text : List Char} : Bears l text ↔ Text.dropReturn l = text := by
  constructor
  · rintro (ended | text)
    · exact if_neg ended
    · simp [Text.dropReturn]
  · rintro rfl
    by_cases ended : l.getLast? = some '\r'
    · obtain ⟨text, rfl⟩ := List.getLast?_eq_some_iff.1 ended
      simpa [Text.dropReturn] using Bears.returned text
    · simpa [Text.dropReturn, ended] using Bears.bare ended

theorem forall_bears_iff {ls texts : List (List Char)} :
    List.Forall₂ Bears ls texts ↔ ls.map Text.dropReturn = texts := by
  have same : Bears = fun l text => Text.dropReturn l = text := by
    funext l text
    exact propext bears_iff
  rw [same, ← List.forall₂_map_left_iff, List.forall₂_eq_eq_eq]

theorem holds_iff {payload : String} {lines : List String} :
    Holds payload lines ↔ lines =
      (((Text.pieces '\n' payload.toList).map Text.dropReturn).filter (· ≠ [])).map
        String.ofList := by
  simp only [Holds, forall_bears_iff, Text.pieces_eq_splitOn, exists_eq_left']

theorem exists_held (payload : String) : ∃ lines, Holds payload lines := ⟨_, holds_iff.2 rfl⟩

theorem byteLE_iff {s t : String} : byteLE s t = true ↔ Text.bytes s ≤ Text.bytes t :=
  decide_eq_true_iff

theorem sortedLines_perm {payload : String} {lines : List String} (h : Holds payload lines) :
    (sortedLines payload).Perm lines := by
  rw [holds_iff.1 h]
  exact List.mergeSort_perm _ _

theorem sortedLines_pairwise (payload : String) :
    (sortedLines payload).Pairwise fun s t => Text.bytes s ≤ Text.bytes t := by
  have ordered := @List.pairwise_mergeSort _ byteLE
    (fun s t u below above =>
      byteLE_iff.2 (List.le_trans (byteLE_iff.1 below) (byteLE_iff.1 above)))
    (fun s t => by simpa [byteLE_iff] using List.le_total (Text.bytes s) (Text.bytes t))
  exact (ordered _).imp byteLE_iff.1

theorem eq_of_sorted {lines lines' : List String} (perm : lines.Perm lines')
    (sorted : lines.Pairwise fun s t => Text.bytes s ≤ Text.bytes t)
    (sorted' : lines'.Pairwise fun s t => Text.bytes s ≤ Text.bytes t) : lines = lines' :=
  perm.eq_of_pairwise
    (fun _ _ _ _ below above => Text.bytes_injective (List.le_antisymm below above)) sorted sorted'

theorem op?_eq_some_iff {table : GroupTable} {b : BufferId} {space : NamespaceId} {line : String}
    {op : Op} : op? table b space line = some op ↔ Gives table b space line op := by
  constructor
  · intro found
    unfold op? at found
    split at found
    · cases found
    · rename_i r read
      split at found
      · cases found
      · rename_i heeded
        obtain ⟨group, grouped, rfl⟩ := Option.map_eq_some_iff.1 found
        obtain ⟨active, mapped⟩ := GroupTable.group?_eq_some_iff.1 grouped
        rw [GroupTable.isIgnored_iff] at heeded
        exact .highlight read heeded active mapped
  · rintro ⟨read, heeded, active, mapped⟩
    rw [← GroupTable.isIgnored_iff] at heeded
    rw [op?, read]
    simp only [if_neg heeded, GroupTable.group?_eq_some_iff.2 ⟨active, mapped⟩, Option.map_some]
    rfl

theorem standsFor_iff {table : GroupTable} {b : BufferId} {space : NamespaceId} {payload : String}
    {ops' : List Op} : StandsFor table b space payload ops' ↔ ops' = ops table b space payload := by
  have decides (line : String) (op : Op) := @op?_eq_some_iff table b space line op
  constructor
  · rintro ⟨lines, sorted, listed, perm, ordered, selected⟩
    obtain rfl := eq_of_sorted ((sortedLines_perm listed).trans perm.symm)
      (sortedLines_pairwise payload) ordered
    exact (selected_iff decides).1 selected
  · rintro rfl
    obtain ⟨lines, listed⟩ := exists_held payload
    exact ⟨lines, sortedLines payload, listed, sortedLines_perm listed,
      sortedLines_pairwise payload, (selected_iff decides).2 rfl⟩

/-- Only the lines that give a highlight matter, and how often each occurs. -/
theorem ops_congr {table : GroupTable} {b : BufferId} {space : NamespaceId}
    {payload payload' : String} {lines lines' : List String} (h : Holds payload lines)
    (h' : Holds payload' lines')
    (same : ∀ line op, Gives table b space line op → lines.count line = lines'.count line) :
    ops table b space payload = ops table b space payload' := by
  -- without the lines that give nothing, both replies are put into the same order
  let usable (line : String) : Bool := (op? table b space line).isSome
  have filtered (payload : String) : ops table b space payload =
      ((sortedLines payload).filter usable).filterMap (op? table b space) := by
    rw [List.filterMap_filter]
    refine List.filterMap_congr fun line _ => ?_
    cases found : op? table b space line <;> simp [usable, found]
  have usables : (lines.filter usable).Perm (lines'.filter usable) := by
    refine List.perm_iff_count.2 fun line => ?_
    cases found : op? table b space line with
    | none =>
      have unused (ls : List String) : (ls.filter usable).count line = 0 :=
        List.count_eq_zero.2 (by simp [usable, found])
      rw [unused, unused]
    | some op =>
      have use : usable line = true := by simp [usable, found]
      rw [List.count_filter use, List.count_filter use]
      exact same line op (op?_eq_some_iff.1 found)
  have perm : ((sortedLines payload).filter usable).Perm ((sortedLines payload').filter usable) :=
    ((sortedLines_perm h).filter usable).trans
      (usables.trans ((sortedLines_perm h').filter usable).symm)
  rw [filtered, filtered, eq_of_sorted perm ((sortedLines_pairwise payload).filter usable)
    ((sortedLines_pairwise payload').filter usable)]

/-- A reply adds exactly the highlights it stands for to a batch and says how many there are. Every
reply in which each line that gives a highlight occurs as often adds the same ones. -/
theorem adds_what_it_stands_for (table : GroupTable) (b : BufferId) (space : NamespaceId)
    (payload : String) (batch : Batch) :
    ∃ added, (into table b space payload batch).1.toList = batch.toList ++ added ∧
      (into table b space payload batch).2 = added.length ∧
      (∀ ops, StandsFor table b space payload ops ↔ ops = added) ∧
      ∀ payload' lines lines', Holds payload lines → Holds payload' lines' →
        (∀ line op, Gives table b space line op → lines.count line = lines'.count line) →
        ∀ batch', (into table b space payload' batch').1.toList = batch'.toList ++ added ∧
          (into table b space payload' batch').2 = added.length := by
  refine ⟨ops table b space payload, toList_into .., rfl, fun ops => standsFor_iff, ?_⟩
  intro payload' lines lines' listed listed' same batch'
  have agree := ops_congr listed listed' same
  exact ⟨by rw [toList_into, agree], by rw [agree]; rfl⟩

def replyTable : GroupTable :=
  .build .cpp "sf" [(.structs, "Type"), (.functions, "Function"), (.members, "Member")]
    (.ofList ["main"])

def plainLines : List String := [
  "s\t12\t4\t12\t11\t7\tGröße", "f\t9\t0\t9\t3\t3\trun", "f\t9\t0\t9\t3\t3\trun"]

def plainReply : String :=
  "s\t12\t4\t12\t11\t7\tGröße\nf\t9\t0\t9\t3\t3\trun\nf\t9\t0\t9\t3\t3\trun"

def idleLines : List String := ["f\t1\t4\t1\t8\t4\tmain", "m\t7\t0\t7\t1\t1\tx", "f\t9\t0"]

def crowdedReply : String :=
  "\r\nf\t9\t0\t9\t3\t3\trun\r\nf\t1\t4\t1\t8\t4\tmain\nm\t7\t0\t7\t1\t1\tx\r\n\n" ++
    "f\t9\t0\t9\t3\t3\trun\nf\t9\t0\r\ns\t12\t4\t12\t11\t7\tGröße\r\n"

def crowdedLines : List String := [
  "f\t9\t0\t9\t3\t3\trun", "f\t1\t4\t1\t8\t4\tmain", "m\t7\t0\t7\t1\t1\tx",
  "f\t9\t0\t9\t3\t3\trun", "f\t9\t0", "s\t12\t4\t12\t11\t7\tGröße"]

theorem crowdedReply_adds :
    Holds plainReply plainLines ∧ Holds crowdedReply crowdedLines ∧
    (∀ line op, Gives replyTable 1 5 line op →
      plainLines.count line = crowdedLines.count line) ∧
    (into replyTable 1 5 crowdedReply .empty).1.toList =
      [.add 1 5 "Function" 9 0 3, .add 1 5 "Function" 9 0 3, .add 1 5 "Type" 12 4 11] := by
  have plain : Holds plainReply plainLines := holds_iff.2 (by decide +kernel)
  have crowded : Holds crowdedReply crowdedLines := holds_iff.2 (by decide +kernel)
  have same : ∀ line op, Gives replyTable 1 5 line op →
      plainLines.count line = crowdedLines.count line := by
    intro line op gives
    have perm : crowdedLines.Perm (plainLines ++ idleLines) := by decide +kernel
    have idle : ∀ l ∈ idleLines, op? replyTable 1 5 l = none := by decide +kernel
    have absent : line ∉ idleLines := fun mem => by
      cases (idle line mem).symm.trans (op?_eq_some_iff.2 gives)
    rw [perm.count_eq, List.count_append, List.count_eq_zero_of_not_mem absent, Nat.add_zero]
  have stands : StandsFor replyTable 1 5 plainReply
      [.add 1 5 "Function" 9 0 3, .add 1 5 "Function" 9 0 3, .add 1 5 "Type" 12 4 11] :=
    ⟨plainLines, plainLines.reverse, plain, plainLines.reverse_perm, by decide +kernel,
      (selected_iff fun _ _ => op?_eq_some_iff).2 (by decide +kernel)⟩
  obtain ⟨added, -, -, only, others⟩ := adds_what_it_stands_for replyTable 1 5 plainReply .empty
  obtain ⟨alike, -⟩ := others crowdedReply plainLines crowdedLines plain crowded same .empty
  obtain rfl := (only _).1 stands
  exact ⟨plain, crowded, same, alike⟩

end SemanticHighlight.Record
