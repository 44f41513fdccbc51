import Mathlib.Logic.Relation
import SemanticHighlight.Proofs.Json.Grammar
import SemanticHighlight.Proofs.Settings.Records

/-!
# Edits of a settings file

Settings depend on the known fields of a file and on nothing else: not on the white space, not on
the order of members, not on members with unknown names, and not on whether a default is written
out. A known field of a record cannot be repeated. A key of a dictionary can, and its last value
counts.
-/

set_option autoImplicit false

namespace SemanticHighlight

open Json (Member Column FieldRepeated FieldsEdited Reordered Stable)

theorem Language.ofJson?_obj {ms : List Member} {l : Language} (h : ofJson? (.obj ms) = some l) :
    ∃ name, ms = [(some name, .null)] := by
  unfold ofJson? at h
  split at h
  · cases ‹Json.obj ms = .str _›
  · cases ‹Json.obj ms = .obj _›
    exact ⟨_, rfl⟩
  · cases h

theorem Language.stable_ofJson? : Stable Language.ofJson? := by
  -- the one value in the object of a language is null, in which there is nothing to reorder
  have scalar {before after : List Member} {k : Option String} {v v' : Json}
      (h : Reordered v v' ∨ Reordered v' v) :
      ofJson? (.obj (before ++ (k, v) :: after)) = none := by
    refine Option.eq_none_iff_forall_ne_some.mpr fun l read => ?_
    obtain ⟨name, same⟩ := ofJson?_obj read
    have mem : (k, v) ∈ before ++ (k, v) :: after := by simp
    rw [same, List.mem_singleton] at mem
    cases mem
    rcases h with h | h <;> cases h
  rintro _ _ (⟨-, order⟩ | _ | ⟨k, before, after, inner⟩)
  · ext l
    constructor <;> intro read <;> obtain ⟨name, rfl⟩ := ofJson?_obj read
    · rwa [← order.singleton_eq]
    · rwa [order.eq_singleton]
  · rfl
  · rw [scalar (.inl inner), scalar (.inr inner)]

namespace WorkerSettings

/-- The fields with what each reads, where that goes, and its default written out. -/
def columns : List (Column WorkerSettings) := [
  .of "binary" none (Json.optional? Json.text?) (fun s x => { s with binary := x })
    .null (Json.stable_optional? Json.stable_text?) rfl,
  .of "debug" false Json.bool? (fun s x => { s with debug := x })
    (.bool false) Json.stable_bool? rfl,
  .of "invoker_name" "taghl" Json.text? (fun s x => { s with invokerName := x })
    (.ofText "taghl") Json.stable_text? rfl,
  .of "read_timeout_ms" 5000 Json.u64? (fun s x => { s with readTimeoutMs := x })
    (.int 5000) Json.stable_u64? rfl,
  .of "max_in_flight" 5 Json.u64? (fun s x => { s with maxInFlight := x })
    (.int 5) Json.stable_u64? rfl,
  .of "pipe_buffer_size" none (Json.optional? Json.u64?) (fun s x => { s with pipeBufferSize := x })
    .null (Json.stable_optional? Json.stable_u64?) rfl]

theorem ofJson?_eq : ofJson? = Json.record columns {} := by
  funext v
  have names : columns.map Column.name = fieldNames := rfl
  rw [ofJson?, Json.record, names]
  cases h : v.fields? fieldNames with
  | none => rfl
  | some vs =>
    obtain ⟨field, rfl⟩ := Json.fields?_listed h
    have listed : (List.range fieldNames.length).map field =
      [field 0, field 1, field 2, field 3, field 4, field 5] := rfl
    simp only [listed, columns, Column.of, List.zipWith, List.foldlM, Option.bind_some,
      Option.bind_eq_bind, Option.map_eq_bind, Option.bind_assoc, Function.comp_apply,
      Option.pure_def]

theorem stable_ofJson? : Stable ofJson? := ofJson?_eq ▸ Json.stable_record columns {}

def defaults : List (String × Json) := [
  ("binary", .null),
  ("debug", .bool false),
  ("invoker_name", .ofText "taghl"),
  ("read_timeout_ms", .int 5000),
  ("max_in_flight", .int 5),
  ("pipe_buffer_size", .null)]

end WorkerSettings

namespace Profile

def columns : List (Column Profile) := [
  .of "language" .c Language.ofJson? (fun p x => { p with language := x })
    (.ofText "c") Language.stable_ofJson? rfl,
  .of "order" "" Json.text? (fun p x => { p with order := x })
    (.ofText "") Json.stable_text? rfl,
  .of "groups" default (Json.dictionary? Json.text?) (fun p x => { p with groups := x })
    (.obj []) (Json.stable_dictionary? Json.stable_text?) rfl,
  .of "ignored" [] (Json.list? Json.text?) (fun p x => { p with ignored := x })
    (.arr []) (Json.stable_list? Json.stable_text?) rfl]

theorem ofJson?_eq : ofJson? = Json.record columns {} := by
  funext v
  have names : columns.map Column.name = fieldNames := rfl
  rw [ofJson?, Json.record, names]
  cases h : v.fields? fieldNames with
  | none => rfl
  | some vs =>
    obtain ⟨field, rfl⟩ := Json.fields?_listed h
    have listed : (List.range fieldNames.length).map field =
      [field 0, field 1, field 2, field 3] := rfl
    simp only [listed, columns, Column.of, List.zipWith, List.foldlM, Option.bind_some,
      Option.bind_eq_bind, Option.map_eq_bind, Option.bind_assoc, Function.comp_apply,
      Option.pure_def]
    rfl

theorem stable_ofJson? : Stable ofJson? := ofJson?_eq ▸ Json.stable_record columns {}

theorem groups_of_ofJson? {before after : List Member} {v : Json} {p : Profile}
    (h : ofJson? (.obj (before ++ (some "groups", v) :: after)) = some p) :
    Json.dictionary? Json.text? v = some p.groups ∧
    ∀ v', ofJson? (.obj (before ++ (some "groups", v') :: after)) =
      (Json.dictionary? Json.text? v').map fun d => { p with groups := d } := by
  have known : "groups" ∈ fieldNames := by decide
  by_cases readable : Json.Readable fieldNames (before ++ (some "groups", .null) :: after)
  · have fields (u : Json) :
        Json.fields? fieldNames (.obj (before ++ (some "groups", u) :: after)) =
          some [(Json.valuesOf "language" (before ++ after)).head?,
            (Json.valuesOf "order" (before ++ after)).head?, some u,
            (Json.valuesOf "ignored" (before ++ after)).head?] := by
      rw [Json.fields?_member known, if_pos readable]
      simp [fieldNames]
    simp only [ofJson?, fields, Option.bind_eq_bind] at h ⊢
    obtain ⟨language, hlanguage, h⟩ := Option.bind_eq_some_iff.mp h
    obtain ⟨order, horder, h⟩ := Option.bind_eq_some_iff.mp h
    obtain ⟨groups, hgroups, h⟩ := Option.bind_eq_some_iff.mp h
    obtain ⟨ignored, hignored, h⟩ := Option.bind_eq_some_iff.mp h
    cases h
    refine ⟨hgroups, fun v' => ?_⟩
    simp only [hlanguage, horder, hignored, Option.bind_some, Option.map_eq_bind]
    rfl
  · rw [ofJson?, Json.fields?_member known, if_neg readable] at h
    cases h

def defaults : List (String × Json) := [
  ("language", .ofText "c"),
  ("order", .ofText ""),
  ("groups", .obj []),
  ("ignored", .arr [])]

end Profile

namespace Settings

def workerColumn : Column Settings :=
  .of "worker" {} WorkerSettings.ofJson? (fun s x => { s with worker := x })
    (WorkerSettings.toJson {}) WorkerSettings.stable_ofJson? (WorkerSettings.ofJson?_toJson {})

def filetypesColumn : Column Settings :=
  .of "filetypes" standardFiletypes (Json.dictionary? Profile.ofJson?)
    (fun s x => { s with filetypes := x })
    (.obj (standardFiletypes.entries.map fun e => (some e.1, e.2.toJson)))
    (Json.stable_dictionary? Profile.stable_ofJson?)
    (Json.dictionary?_entries _ _ Profile.ofJson?_toJson standardFiletypes)

def columns : List (Column Settings) := [workerColumn, filetypesColumn]

theorem ofJson?_eq : ofJson? = Json.record columns standard := by
  funext v
  have names : columns.map Column.name = fieldNames := rfl
  rw [ofJson?, Json.record, names]
  cases h : v.fields? fieldNames with
  | none => rfl
  | some vs =>
    obtain ⟨field, rfl⟩ := Json.fields?_listed h
    have listed : (List.range fieldNames.length).map field = [field 0, field 1] := rfl
    simp only [listed, columns, workerColumn, filetypesColumn, Column.of, List.zipWith,
      List.foldlM, Option.bind_some, Option.bind_eq_bind, Option.map_eq_bind, Option.bind_assoc,
      Function.comp_apply, Option.pure_def]

theorem stable_ofJson? : Stable ofJson? := ofJson?_eq ▸ Json.stable_record columns standard

variable {before after : List Member}

theorem ofJson?_worker {v v' : Json} (h : WorkerSettings.ofJson? v = WorkerSettings.ofJson? v') :
    ofJson? (.obj (before ++ (some "worker", v) :: after)) =
      ofJson? (.obj (before ++ (some "worker", v') :: after)) := by
  have worker : workerColumn.fill (some v) = workerColumn.fill (some v') :=
    funext fun _ => congrArg (Option.map _) h
  rw [ofJson?_eq]
  refine Json.record_value fun c hc own => ?_
  rcases List.mem_pair.mp hc with rfl | rfl
  · exact worker
  · exact absurd own (by decide)

theorem ofJson?_filetypes {v v' : Json}
    (h : Json.dictionary? Profile.ofJson? v = Json.dictionary? Profile.ofJson? v') :
    ofJson? (.obj (before ++ (some "filetypes", v) :: after)) =
      ofJson? (.obj (before ++ (some "filetypes", v') :: after)) := by
  have filetypes : filetypesColumn.fill (some v) = filetypesColumn.fill (some v') :=
    funext fun _ => congrArg (Option.map _) h
  rw [ofJson?_eq]
  refine Json.record_value fun c hc own => ?_
  rcases List.mem_pair.mp hc with rfl | rfl
  · exact absurd own (by decide)
  · exact filetypes

def defaults : List (String × Json) := [
  ("worker", WorkerSettings.toJson {}),
  ("filetypes", .obj (standardFiletypes.entries.map fun e => (some e.1, e.2.toJson)))]

theorem filetypes_of_ofJson? {v : Json} {s : Settings}
    (h : ofJson? (.obj (before ++ (some "filetypes", v) :: after)) = some s) :
    Json.dictionary? Profile.ofJson? v = some s.filetypes ∧
    ∀ v', ofJson? (.obj (before ++ (some "filetypes", v') :: after)) =
      (Json.dictionary? Profile.ofJson? v').map fun d => { s with filetypes := d } := by
  have known : "filetypes" ∈ fieldNames := by decide
  by_cases readable : Json.Readable fieldNames (before ++ (some "filetypes", .null) :: after)
  · have fields (u : Json) :
        Json.fields? fieldNames (.obj (before ++ (some "filetypes", u) :: after)) =
          some [(Json.valuesOf "worker" (before ++ after)).head?, some u] := by
      rw [Json.fields?_member known, if_pos readable]
      simp [fieldNames]
    simp only [ofJson?, fields, Json.orDefault, Option.bind_eq_bind] at h ⊢
    obtain ⟨worker, hworker, h⟩ := Option.bind_eq_some_iff.mp h
    obtain ⟨filetypes, hfiletypes, h⟩ := Option.bind_eq_some_iff.mp h
    cases h
    refine ⟨hfiletypes, fun v' => ?_⟩
    rw [hworker, Option.bind_some, Option.map_eq_bind]
    rfl
  · rw [ofJson?, Json.fields?_member known, if_neg readable] at h
    cases h

/-- One edit that keeps the settings: members are put into another order, or an unknown member or
the default of a field that is left out is put into a record. -/
inductive Edited : Json → Json → Prop
  | reordered {v v' : Json} (order : Reordered v v') : Edited v v'
  | settings {ms ms' : List Member} (edit : FieldsEdited defaults ms ms') :
    Edited (.obj ms) (.obj ms')
  | worker {before after ws ws' : List Member}
    (edit : FieldsEdited WorkerSettings.defaults ws ws') :
    Edited (.obj (before ++ (some "worker", .obj ws) :: after))
      (.obj (before ++ (some "worker", .obj ws') :: after))
  | filetype {before after es es' ps ps' : List Member} {name : Option String}
    (edit : FieldsEdited Profile.defaults ps ps') :
    Edited (.obj (before ++ (some "filetypes", .obj (es ++ (name, .obj ps) :: es')) :: after))
      (.obj (before ++ (some "filetypes", .obj (es ++ (name, .obj ps') :: es')) :: after))

theorem ofJson?_edited {v v' : Json} (h : Edited v v') : ofJson? v = ofJson? v' := by
  cases h with
  | reordered order => exact stable_ofJson? v v' order
  | settings edit =>
    have distinct : (columns.map Column.name).Nodup := by decide
    rw [ofJson?_eq]
    exact Json.record_edited distinct edit
  | worker edit =>
    have distinct : (WorkerSettings.columns.map Column.name).Nodup := by decide
    have same := Json.record_edited (s := {}) distinct edit
    rw [← WorkerSettings.ofJson?_eq] at same
    exact ofJson?_worker same
  | filetype edit =>
    have distinct : (Profile.columns.map Column.name).Nodup := by decide
    have same := Json.record_edited (s := {}) distinct edit
    rw [← Profile.ofJson?_eq] at same
    exact ofJson?_filetypes (Json.dictionary?_value same)

theorem ofJson?_edits {v v' : Json} (h : Relation.EqvGen Edited v v') : ofJson? v = ofJson? v' := by
  induction h with
  | rel _ _ edit => exact ofJson?_edited edit
  | refl => rfl
  | symm _ _ _ ih => exact ih.symm
  | trans _ _ _ _ _ ih ih' => exact ih.trans ih'

inductive Repeats : Json → Prop
  | settings {ms : List Member} (repeated : FieldRepeated fieldNames ms) : Repeats (.obj ms)
  | worker {ms ws : List Member} (mem : (some "worker", .obj ws) ∈ ms)
    (repeated : FieldRepeated WorkerSettings.fieldNames ws) : Repeats (.obj ms)
  | filetype {ms es ps : List Member} {name : Option String}
    (mem : (some "filetypes", .obj es) ∈ ms) (entry : (name, .obj ps) ∈ es)
    (repeated : FieldRepeated Profile.fieldNames ps) : Repeats (.obj ms)

theorem ofJson?_repeats {v : Json} (h : Repeats v) : ofJson? v = none := by
  rw [ofJson?_eq]
  cases h with
  | settings repeated => exact Json.record_repeated repeated
  | @worker ms ws mem repeated =>
    have unread : WorkerSettings.ofJson? (.obj ws) = none := by
      rw [WorkerSettings.ofJson?_eq]
      exact Json.record_repeated repeated
    have column : workerColumn ∈ columns := by simp [columns]
    exact Json.record_unread column mem fun s => congrArg (Option.map _) unread
  | @filetype ms es ps name mem entry repeated =>
    have unread : Profile.ofJson? (.obj ps) = none := by
      rw [Profile.ofJson?_eq]
      exact Json.record_repeated repeated
    have column : filetypesColumn ∈ columns := by simp [columns]
    have unread := Json.dictionary?_unread entry unread
    exact Json.record_unread column mem fun s => congrArg (Option.map _) unread

def withFiletypes (before entries after : List Member) : Json :=
  .obj (before ++ (some "filetypes", .obj entries) :: after)

def withGroups (before entries after : List Member) : Json :=
  .obj (before ++ (some "groups", .obj entries) :: after)

theorem filetype_entered {es es' : List Member} {name : String} {u : Json} {p : Profile}
    {s : Settings} (h : ofJson? (withFiletypes before (es ++ es') after) = some s)
    (read : Profile.ofJson? u = some p) :
    ofJson? (withFiletypes before (es ++ (some name, u) :: es') after) =
      some { s with filetypes := Json.enter s.filetypes es' name p } := by
  obtain ⟨filetypes, put⟩ := filetypes_of_ofJson? h
  rw [withFiletypes, put, Json.dictionary?_member, read, Option.bind_some, filetypes]
  rfl

theorem group_entered {es es' ps ps' gs gs' : List Member} {name key g : String} {s : Settings}
    (h : ofJson? (withFiletypes before
      (es ++ (some name, withGroups ps (gs ++ gs') ps') :: es') after) = some s) :
    ∃ p, Profile.ofJson? (withGroups ps (gs ++ gs') ps') = some p ∧
      (some name ∉ es'.map Prod.fst → s.filetypes.get? name = some p) ∧
      ofJson? (withFiletypes before
        (es ++ (some name, withGroups ps (gs ++ (some key, .ofText g) :: gs') ps') :: es') after) =
        some { s with
          filetypes := Json.enter s.filetypes es' name
            { p with groups := Json.enter p.groups gs' key g } } := by
  obtain ⟨filetypes, put⟩ := filetypes_of_ofJson? h
  rw [Json.dictionary?_member] at filetypes
  obtain ⟨p, profile, rest⟩ := Option.bind_eq_some_iff.mp filetypes
  obtain ⟨d, others, entered⟩ := Option.map_eq_some_iff.mp rest
  obtain ⟨groups, regroup⟩ := Profile.groups_of_ofJson? profile
  have profile' : Profile.ofJson? (withGroups ps (gs ++ (some key, .ofText g) :: gs') ps') =
      some { p with groups := Json.enter p.groups gs' key g } := by
    rw [withGroups, regroup, Json.dictionary?_member, groups]
    rfl
  refine ⟨p, profile, fun last => ?_, ?_⟩
  · rw [← entered, Json.enter, if_neg last, Dictionary.get?_insert, if_pos rfl]
  · rw [withFiletypes, put, Json.dictionary?_member, profile', others, ← entered, Json.enter_enter]
    rfl

theorem read_of_textOf {v : Json} {text : String} (h : v.TextOf text.toList) :
    read text = match ofJson? v with
      | some s => .ok s
      | none => .error .malformed := by
  have value := Json.read?_eq_some_iff.mpr h
  cases settings : ofJson? v <;> simp only [read, value, Option.bind_some, settings]

theorem textOf_of_read {text : String} {s : Settings} (h : read text = .ok s) :
    ∃ v, v.TextOf text.toList ∧ ofJson? v = some s := by
  unfold read at h
  split at h
  · rename_i s' known
    cases h
    obtain ⟨v, value, settings⟩ := Option.bind_eq_some_iff.mp known
    exact ⟨v, Json.read?_eq_some_iff.mp value, settings⟩
  · cases h

/-- Settings depend on the known fields only. A file that is read is read as the same settings with
any other white space and after any edits that reorder members, insert or remove unknown members,
or write out or leave out defaults. With a known field repeated it is not read. With one more entry
among the file types, or among the groups of a file type, it is read as if nothing had been added
where the key comes again behind, and as if the key had this value where it does not. -/
theorem read_known_fields {text : String} {s : Settings} (accepted : read text = .ok s) :
    ∃ v, v.TextOf text.toList ∧
      (∀ text' : String, Json.Respaced text.toList text'.toList → read text' = .ok s) ∧
      (∀ (v' : Json) (text' : String), Relation.EqvGen Edited v v' → v'.TextOf text'.toList →
        read text' = .ok s) ∧
      (∀ (v' : Json) (text' : String), Repeats v' → v'.TextOf text'.toList →
        read text' = .error .malformed) ∧
      (∀ (before es es' after : List Member) (name : String) (u : Json) (p : Profile)
          (text' : String), v = withFiletypes before (es ++ es') after →
        Profile.ofJson? u = some p →
        (withFiletypes before (es ++ (some name, u) :: es') after).TextOf text'.toList →
        read text' = .ok { s with filetypes := Json.enter s.filetypes es' name p }) ∧
      ∀ (before es es' after ps ps' gs gs' : List Member) (name key g : String),
        v = withFiletypes before (es ++ (some name, withGroups ps (gs ++ gs') ps') :: es') after →
        ∃ p, Profile.ofJson? (withGroups ps (gs ++ gs') ps') = some p ∧
          (some name ∉ es'.map Prod.fst → s.filetypes.get? name = some p) ∧
          ∀ text' : String,
            (withFiletypes before (es ++
              (some name, withGroups ps (gs ++ (some key, .ofText g) :: gs') ps') :: es')
              after).TextOf text'.toList →
            read text' = .ok { s with
              filetypes := Json.enter s.filetypes es' name
                { p with groups := Json.enter p.groups gs' key g } } := by
  obtain ⟨v, written, settings⟩ := textOf_of_read accepted
  refine ⟨v, written, fun text' spaced => ?_, fun v' text' edits written' => ?_,
    fun v' text' twice written' => ?_, ?_, ?_⟩
  · rw [read_of_textOf (spaced.textOf written), settings]
  · rw [read_of_textOf written', ← ofJson?_edits edits, settings]
  · rw [read_of_textOf written', ofJson?_repeats twice]
  · rintro before es es' after name u p text' rfl read written'
    rw [read_of_textOf written', filetype_entered settings read]
  · rintro before es es' after ps ps' gs gs' name key g rfl
    obtain ⟨p, profile, last, entered⟩ := group_entered settings
    refine ⟨p, profile, last, fun text' written' => ?_⟩
    rw [read_of_textOf written', entered]

def sampleFile (worker groups : List Member) : Json :=
  .obj [(some "worker", .obj worker),
    (some "filetypes", .obj [(some "c", .obj [(some "groups", .obj groups)])])]

def sampleSettings (group : String) : Settings where
  worker := { debug := true }
  filetypes := Dictionary.ofList [("c", { groups := Dictionary.ofList [("f", group)] })]

def sampleDebug : Member := (some "debug", .bool true)

def sampleGroup (text : String) : Member := (some "f", .ofText text)

def rearrangedFile : Json :=
  .obj [
    (some "filetypes", .obj [(some "c", .obj [(some "groups", .obj [sampleGroup "Function"]),
      (some "order", .ofText "")])]),
    (some "worker", .obj [sampleDebug, (some "color", .arr [.null])])]

theorem rearrangedFile_edited :
    Relation.EqvGen Edited (sampleFile [sampleDebug] [sampleGroup "Function"]) rearrangedFile := by
  let groups : Member := (some "groups", .obj [sampleGroup "Function"])
  have colored : FieldsEdited WorkerSettings.defaults [sampleDebug]
      [sampleDebug, (some "color", .arr [.null])] :=
    @FieldsEdited.unknown _ "color" (.arr [.null]) [sampleDebug] [] (by decide)
  have ordered : FieldsEdited Profile.defaults [groups] [groups, (some "order", .ofText "")] :=
    @FieldsEdited.default _ "order" (.ofText "") [groups] [] (.tail _ (.head _)) (by decide)
  refine .trans _ _ _ (.rel _ _ (@Edited.worker [] _ _ _ colored)) ?_
  refine .trans _ _ _ (.rel _ _ (@Edited.filetype [_] [] [] [] _ _ (some "c") ordered)) ?_
  exact .rel _ _ (.reordered (.members (by decide) (.swap _ _ _)))

def compactText (v : Json) : String := String.ofList v.compact

theorem sampleFile_read :
    read (compactText (sampleFile [sampleDebug] [sampleGroup "Function"])) =
      .ok (sampleSettings "Function") ∧
    read (compactText rearrangedFile) = .ok (sampleSettings "Function") ∧
    read (compactText (sampleFile [sampleDebug, sampleDebug] [])) = .error .malformed ∧
    read (compactText (sampleFile [sampleDebug] [sampleGroup "Function", sampleGroup "Method"])) =
      .ok (sampleSettings "Method") := by
  have textOf {v : Json} (whole : v.Whole) : v.TextOf (compactText v).toList := by
    rw [compactText, String.toList_ofList]
    exact Json.textOf_compact whole
  have accepted : read (compactText (sampleFile [sampleDebug] [sampleGroup "Function"])) =
      .ok (sampleSettings "Function") := by
    rw [read_of_textOf (textOf (by decide))]
    rfl
  obtain ⟨v, written, -, edits, repeats, -, groups⟩ := read_known_fields accepted
  have same := (Json.read?_eq_some_iff.mpr written).symm.trans
    (Json.read?_eq_some_iff.mpr (textOf (by decide)))
  cases same
  refine ⟨accepted, ?_, ?_, ?_⟩
  · exact edits _ _ rearrangedFile_edited (textOf (by decide))
  · exact repeats _ _ (.worker (.head _) ⟨"debug", by decide, by decide⟩) (textOf (by decide))
  · obtain ⟨p, profile, -, entered⟩ := groups [(some "worker", .obj [sampleDebug])] [] [] [] [] []
      [sampleGroup "Function"] [] "c" "f" "Method" rfl
    have known : Profile.ofJson? (withGroups [] [sampleGroup "Function"] []) =
      some { groups := Dictionary.ofList [("f", "Function")] } := rfl
    cases known.symm.trans profile
    exact entered _ (textOf (by decide))

end Settings

end SemanticHighlight
