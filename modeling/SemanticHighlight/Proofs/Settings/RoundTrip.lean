import Mathlib.Data.List.Nodup
import SemanticHighlight.Proofs.Json.RoundTrip
import SemanticHighlight.Settings.Format

/-!
# Settings read back

A record is written as the object of the fields it has, so each field is read back, or found absent
where its default is its absence. A dictionary is written in the order of its keys, so it is read
back entry by entry. Settings that are written and read are the settings.
-/

set_option autoImplicit false

namespace SemanticHighlight

namespace Json

def ofFields (fields : List (String × Option Json)) : Json :=
  .obj (fields.filterMap fun f => f.2.map (some f.1, ·))

theorem filter_field {fields : List (String × Option Json)} (distinct : (fields.map Prod.fst).Nodup)
    {f : String × Option Json} (h : f ∈ fields) : fields.filter (·.1 = f.1) = [f] := by
  induction fields with
  | nil => cases h
  | cons g fields ih =>
    rw [List.map_cons, List.nodup_cons] at distinct
    rcases List.mem_cons.mp h with rfl | h
    · have others : fields.filter (·.1 = f.1) = [] := by
        rw [List.filter_eq_nil_iff]
        intro g hg same
        exact distinct.1 (List.mem_map.mpr ⟨g, hg, by simpa using same⟩)
      simp [others]
    · have other : g.1 ≠ f.1 := fun same => distinct.1 (List.mem_map.mpr ⟨f, h, same.symm⟩)
      simp [other, ih distinct.2 h]

theorem values_named (fields : List (String × Option Json)) (name : String) :
    ((fields.filterMap fun f => f.2.map (some f.1, ·)).filter (·.1 = some name)).map Prod.snd =
      (fields.filter (·.1 = name)).filterMap Prod.snd := by
  induction fields with
  | nil => rfl
  | cons f fields ih =>
    obtain ⟨key, v?⟩ := f
    by_cases hk : key = name
    · cases v? <;> simp [hk, ih]
    · cases v? <;> simp [hk, ih]

theorem fields?_ofFields (fields : List (String × Option Json))
    (distinct : (fields.map Prod.fst).Nodup) :
    (ofFields fields).fields? (fields.map Prod.fst) = some (fields.map Prod.snd) := by
  have values (f : String × Option Json) (h : f ∈ fields) :
      ((fields.filterMap fun f => f.2.map (some f.1, ·)).filter (·.1 = some f.1)).map Prod.snd =
        f.2.toList := by
    rw [values_named, filter_field distinct h]
    cases hv : f.2 <;> simp [hv]
  have texts : (fields.filterMap fun f => f.2.map (some f.1, ·)).any (·.1 = none) = false := by
    rw [List.any_eq_false]
    intro m hm
    obtain ⟨f, -, hf⟩ := List.mem_filterMap.mp hm
    obtain ⟨v, -, rfl⟩ := Option.map_eq_some_iff.mp hf
    simp
  have once (f : String × Option Json) : f.2.toList.length ≤ 1 := by
    cases f.2 <;> simp
  rw [ofFields, fields?, texts, Bool.false_or, if_neg]
  · rw [List.map_map]
    congr 1
    apply List.map_congr_left
    intro f hf
    rw [Function.comp_apply]
    beta_reduce
    rw [values f hf]
    cases f.2 <;> rfl
  · rw [List.any_map, Bool.not_eq_true, List.any_eq_false]
    intro f hf
    rw [Function.comp_apply]
    beta_reduce
    rw [values f hf]
    simp [once f]

theorem whole_ofFields (fields : List (String × Option Json))
    (h : ∀ f ∈ fields, ∀ v ∈ f.2, v.Whole) : (ofFields fields).Whole := by
  apply whole_obj
  intro m hm
  obtain ⟨f, hf, present⟩ := List.mem_filterMap.mp hm
  obtain ⟨v, hv, rfl⟩ := Option.map_eq_some_iff.mp present
  exact h f hf v hv

theorem whole_entries {α : Type} {write : α → Json} (h : ∀ x, (write x).Whole)
    (entries : List (String × α)) : (obj (entries.map fun e => (some e.1, write e.2))).Whole := by
  apply whole_obj
  intro m hm
  obtain ⟨e, -, rfl⟩ := List.mem_map.mp hm
  exact h e.2

theorem u64?_int (n : UInt64) : u64? (.int n.toNat) = some n := by
  have fits : (n.toNat : Int).toNat < UInt64.size := n.toNat_lt
  rw [u64?, if_pos ⟨Int.natCast_nonneg _, fits⟩, Int.toNat_natCast, UInt64.ofNat_toNat]

theorem orDefault_optional {α : Type} (read : Json → Option α) (write : α → Json)
    (back : ∀ x, optional? read (write x) = some (some x)) (x? : Option α) :
    orDefault none (optional? read) (x?.map write) = some x? := by
  cases x? with
  | none => rfl
  | some x => exact back x

end Json

namespace Dictionary

variable {α : Type}

theorem entries_injective {d d' : Dictionary α} (h : d.entries = d'.entries) : d = d' := by
  cases d
  cases d'
  cases h
  rfl

theorem insertEntry_last {k : String} {v : α} {es : List (String × α)}
    (last : ∀ e ∈ es, e.1 < k) : insertEntry k v es = es ++ [(k, v)] := by
  induction es with
  | nil => rfl
  | cons e es ih =>
    obtain ⟨j, w⟩ := e
    have hj : j < k := last (j, w) (by simp)
    rw [insertEntry, if_neg (String.lt_asymm hj), if_neg fun same => String.lt_irrefl _ (same ▸ hj),
      ih fun e he => last e (List.mem_cons_of_mem _ he)]
    rfl

theorem foldl_insert (d : Dictionary α) (es : List (String × α))
    (h : (d.entries ++ es).Pairwise (fun a b => a.1 < b.1)) :
    (es.foldl (fun d e => d.insert e.1 e.2) d).entries = d.entries ++ es := by
  induction es generalizing d with
  | nil => simp
  | cons e es ih =>
    have last : (d.insert e.1 e.2).entries = d.entries ++ [e] :=
      insertEntry_last fun e' he => (List.pairwise_append.mp h).2.2 e' he e (by simp)
    rw [List.foldl_cons, ih, last, List.append_assoc, List.singleton_append]
    rwa [last, List.append_assoc, List.singleton_append]

theorem ofList_entries (d : Dictionary α) : ofList d.entries = d := by
  have h := foldl_insert {} d.entries (by simpa using d.ascending)
  exact entries_injective h

end Dictionary

theorem Json.dictionary?_entries {α : Type} (read : Json → Option α) (write : α → Json)
    (back : ∀ x, read (write x) = some x) (d : Dictionary α) :
    dictionary? read (.obj (d.entries.map fun e => (some e.1, write e.2))) = some d := by
  have entries := mapM_map_some (fun e : String × α => (some e.1, write e.2)) (member? read)
    (fun e => by rw [member?, back, Option.map_some]) d.entries
  rw [dictionary?, entries, Option.map_some, Dictionary.ofList_entries]

theorem Language.ofJson?_toJson (l : Language) : ofJson? l.toJson = some l := Language.ofName?_name l

namespace WorkerSettings

def fields (s : WorkerSettings) : List (String × Option Json) := [
  ("binary", s.binary.map Json.ofText),
  ("debug", some (.bool s.debug)),
  ("invoker_name", some (.ofText s.invokerName)),
  ("read_timeout_ms", some (.int s.readTimeoutMs.toNat)),
  ("max_in_flight", some (.int s.maxInFlight.toNat)),
  ("pipe_buffer_size", s.pipeBufferSize.map fun n => .int n.toNat)]

theorem toJson_eq (s : WorkerSettings) : s.toJson = .ofFields s.fields := by
  rw [toJson, fields]
  cases s.binary <;> cases s.pipeBufferSize <;> rfl

theorem ofJson?_toJson (s : WorkerSettings) : ofJson? s.toJson = some s := by
  have names : s.fields.map Prod.fst = fieldNames := rfl
  have read := Json.fields?_ofFields s.fields (by rw [names]; decide)
  have binary := Json.orDefault_optional Json.text? Json.ofText (fun _ => rfl) s.binary
  have number (n : UInt64) (d : UInt64) :
      Json.orDefault d Json.u64? (some (.int n.toNat)) = some n := Json.u64?_int n
  have pipe := Json.orDefault_optional Json.u64? (fun n : UInt64 => .int n.toNat)
    (fun n => congrArg (Option.map some) (Json.u64?_int n)) s.pipeBufferSize
  rw [ofJson?, toJson_eq, ← names, read, fields]
  simp only [List.map_cons, List.map_nil, binary, number, pipe]
  rfl

theorem toJson_whole (s : WorkerSettings) : s.toJson.Whole := by
  rw [toJson_eq]
  apply Json.whole_ofFields
  simp [fields, Json.whole_ofText, Json.whole_bool, Json.whole_int]

end WorkerSettings

namespace Profile

def fields (p : Profile) : List (String × Option Json) := [
  ("language", some p.language.toJson),
  ("order", some (.ofText p.order)),
  ("groups", some (.obj (p.groups.entries.map fun e => (some e.1, .ofText e.2)))),
  ("ignored", some (.arr (p.ignored.map Json.ofText)))]

theorem ofJson?_toJson (p : Profile) : ofJson? p.toJson = some p := by
  have names : p.fields.map Prod.fst = fieldNames := rfl
  have record : p.toJson = .ofFields p.fields := rfl
  have read := Json.fields?_ofFields p.fields (by rw [names]; decide)
  have language := Language.ofJson?_toJson p.language
  have groups := Json.dictionary?_entries Json.text? Json.ofText (fun _ => rfl) p.groups
  have ignored : Json.list? Json.text? (.arr (p.ignored.map Json.ofText)) = some p.ignored :=
    Json.mapM_map_some Json.ofText Json.text? (fun _ => rfl) p.ignored
  rw [ofJson?, record, ← names, read, fields]
  simp only [List.map_cons, List.map_nil, Json.orDefault, language, groups, ignored]
  rfl

theorem toJson_whole (p : Profile) : p.toJson.Whole := by
  have groups := Json.whole_entries Json.whole_ofText p.groups.entries
  have ignored : (Json.arr (p.ignored.map Json.ofText)).Whole := by
    apply Json.whole_arr
    simp [Json.whole_ofText]
  apply Json.whole_ofFields p.fields
  simp [fields, Language.toJson, Json.whole_ofText, groups, ignored]

end Profile

namespace Settings

def fields (s : Settings) : List (String × Option Json) := [
  ("worker", some s.worker.toJson),
  ("filetypes", some (.obj (s.filetypes.entries.map fun e => (some e.1, e.2.toJson))))]

theorem ofJson?_toJson (s : Settings) : ofJson? s.toJson = some s := by
  have names : s.fields.map Prod.fst = fieldNames := rfl
  have record : s.toJson = .ofFields s.fields := rfl
  have read := Json.fields?_ofFields s.fields (by rw [names]; decide)
  have worker := WorkerSettings.ofJson?_toJson s.worker
  have filetypes := Json.dictionary?_entries _ _ Profile.ofJson?_toJson s.filetypes
  rw [ofJson?, record, ← names, read, fields]
  simp only [List.map_cons, List.map_nil, Json.orDefault, worker, filetypes]
  rfl

theorem toJson_whole (s : Settings) : s.toJson.Whole := by
  have filetypes := Json.whole_entries Profile.toJson_whole s.filetypes.entries
  apply Json.whole_ofFields s.fields
  simp [fields, WorkerSettings.toJson_whole, filetypes]

/-- Settings are read back from their own text, so reading, writing and reading again comes to the
same as reading once. -/
theorem read_text (s : Settings) :
    read s.text = .ok s ∧ ∀ text, (read text).bind (fun s => read s.text) = read text := by
  have back (s : Settings) : read s.text = .ok s := by
    rw [read, text, String.toList_ofList, Json.read?_pretty s.toJson_whole, Option.bind_some,
      ofJson?_toJson]
  refine ⟨back s, fun text => ?_⟩
  cases h : read text with
  | error e => rfl
  | ok s => exact back s

end Settings

end SemanticHighlight
