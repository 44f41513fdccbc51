import SemanticHighlight.Proofs.Settings.Dictionary

/-!
# Records and their members

A record is read field by field, each from the value under its name or from its absence. Members
with other names are passed over and the order of the members does not matter, neither in the
object itself nor in any object inside.
-/

set_option autoImplicit false

namespace SemanticHighlight.Json

/-- The members of one object, somewhere in the value, are put into another order. Its keys are
distinct. -/
inductive Reordered : Json → Json → Prop
  | members {ms ms' : List Member} (distinct : (ms.filterMap Prod.fst).Nodup)
    (order : ms.Perm ms') : Reordered (.obj ms) (.obj ms')
  | item {v v' : Json} (before after : List Json) (inner : Reordered v v') :
    Reordered (.arr (before ++ v :: after)) (.arr (before ++ v' :: after))
  | value {v v' : Json} (k : Option String) (before after : List Member) (inner : Reordered v v') :
    Reordered (.obj (before ++ (k, v) :: after)) (.obj (before ++ (k, v') :: after))

def Stable {β : Type} (f : Json → β) : Prop := ∀ v v', Reordered v v' → f v = f v'

theorem stable_text? : Stable text? := by
  rintro _ _ (_ | _ | _) <;> rfl

theorem stable_bool? : Stable bool? := by
  rintro _ _ (_ | _ | _) <;> rfl

theorem stable_u64? : Stable u64? := by
  rintro _ _ (_ | _ | _) <;> rfl

section

variable {α : Type} {f : Json → Option α}

theorem stable_optional? (h : Stable f) : Stable (optional? f) := by
  intro v v' order
  have same := h v v' order
  cases order <;> exact congrArg (Option.map some) same

theorem stable_list? (h : Stable f) : Stable (list? f) := by
  rintro _ _ (_ | ⟨before, after, inner⟩ | _)
  · rfl
  · simp [list?, h _ _ inner]
  · rfl

theorem mapM_eq_some_iff {β γ : Type} {g : β → Option γ} {xs : List β} {ys : List γ} :
    xs.mapM g = some ys ↔ List.Forall₂ (fun x y => g x = some y) xs ys := by
  induction xs generalizing ys with
  | nil => simp [eq_comm]
  | cons x xs ih =>
    simp only [List.mapM_cons, Option.bind_eq_bind, Option.bind_eq_some_iff, ih, Option.pure_def,
      Option.some.injEq, List.forall₂_cons_left_iff, eq_comm (a := ys), exists_and_left]

theorem keys_of_entries {ms : List Member} {es : List (String × α)}
    (h : ms.mapM (member? f) = some es) : ms.map Prod.fst = (es.map Prod.fst).map some := by
  have same (m : Member) (e : String × α) (h : member? f m = some e) : m.1 = some e.1 := by
    unfold member? at h
    split at h
    · obtain ⟨x, -, rfl⟩ := Option.map_eq_some_iff.mp h
      rfl
    · cases h
  rw [mapM_eq_some_iff] at h
  induction h with
  | nil => rfl
  | cons first _ ih => rw [List.map_cons, List.map_cons, List.map_cons, same _ _ first, ih]

theorem dictionary?_perm {ms ms' : List Member} (order : ms.Perm ms')
    (distinct : (ms.filterMap Prod.fst).Nodup) {d : Dictionary α}
    (h : dictionary? f (.obj ms) = some d) : dictionary? f (.obj ms') = some d := by
  obtain ⟨es, read, rfl⟩ := Option.map_eq_some_iff.mp h
  obtain ⟨es', read', order'⟩ := List.perm_comp_forall₂ order.symm (mapM_eq_some_iff.mp read)
  have keys : ms.filterMap Prod.fst = es.map Prod.fst := by
    have texts := congrArg (List.filterMap id) (keys_of_entries read)
    rwa [List.filterMap_map, List.filterMap_map, Function.id_comp, Function.id_comp,
      List.filterMap_some] at texts
  rw [dictionary?, mapM_eq_some_iff.mpr read', Option.map_some,
    Dictionary.ofList_perm order'.symm (keys ▸ distinct)]

theorem dictionary?_value {ms ms' : List Member} {k : Option String} {u u' : Json}
    (h : f u = f u') :
    dictionary? f (.obj (ms ++ (k, u) :: ms')) = dictionary? f (.obj (ms ++ (k, u') :: ms')) := by
  cases k <;> simp [dictionary?, member?, h]

theorem stable_dictionary? (h : Stable f) : Stable (dictionary? f) := by
  rintro _ _ (⟨distinct, order⟩ | _ | ⟨k, before, after, inner⟩)
  · have distinct' := (order.filterMap Prod.fst).nodup_iff.mp distinct
    ext d
    exact ⟨dictionary?_perm order distinct, dictionary?_perm order.symm distinct'⟩
  · rfl
  · exact dictionary?_value (h _ _ inner)

def enter (d : Dictionary α) (later : List Member) (k : String) (x : α) : Dictionary α :=
  if some k ∈ later.map Prod.fst then d else d.insert k x

theorem enter_enter (d : Dictionary α) (later : List Member) (k : String) (x y : α) :
    enter (enter d later k x) later k y = enter d later k y := by
  unfold enter
  split
  · rfl
  · exact Dictionary.insert_insert d k x y

theorem dictionary?_member (ms ms' : List Member) (k : String) (u : Json) :
    dictionary? f (.obj (ms ++ (some k, u) :: ms')) =
      (f u).bind fun x => (dictionary? f (.obj (ms ++ ms'))).map (enter · ms' k x) := by
  cases before : ms.mapM (member? f) with
  | none => cases f u <;> simp [dictionary?, before]
  | some es =>
    cases read : f u with
    | none => simp [dictionary?, member?, before, read]
    | some x =>
      cases after : ms'.mapM (member? f) with
      | none => simp [dictionary?, member?, before, read, after]
      | some es' =>
        have repeated : some k ∈ ms'.map Prod.fst ↔ k ∈ es'.map Prod.fst := by
          rw [keys_of_entries after]
          simp
        simp only [enter, repeated]
        simp [dictionary?, member?, before, read, after, Dictionary.ofList_append_cons]

theorem dictionary?_unread {ms : List Member} {k : Option String} {u : Json} (mem : (k, u) ∈ ms)
    (h : f u = none) : dictionary? f (.obj ms) = none := by
  obtain ⟨before, after, rfl⟩ := List.append_of_mem mem
  cases k with
  | none => cases before.mapM (member? f) <;> simp [dictionary?, member?, *]
  | some k => rw [dictionary?_member, h, Option.bind_none]

end

def valuesOf (name : String) (ms : List Member) : List Json :=
  (ms.filter (·.1 = some name)).map Prod.snd

def Readable (names : List String) (ms : List Member) : Prop :=
  none ∉ ms.map Prod.fst ∧ ∀ name ∈ names, (valuesOf name ms).length ≤ 1

instance (names : List String) (ms : List Member) : Decidable (Readable names ms) :=
  inferInstanceAs (Decidable (_ ∧ _))

theorem fields?_obj (names : List String) (ms : List Member) :
    fields? names (.obj ms) =
      if Readable names ms then some (names.map fun name => (valuesOf name ms).head?)
      else none := by
  have same : (ms.any (·.1 = none) || names.any fun name => (valuesOf name ms).length > 1) = true ↔
      ¬Readable names ms := by
    simp only [Readable, Bool.or_eq_true, List.any_eq_true, decide_eq_true_eq, List.mem_map]
    grind
  have unfolded : fields? names (.obj ms) =
      if ms.any (·.1 = none) || names.any fun name => (valuesOf name ms).length > 1 then none
      else some (names.map fun name => (valuesOf name ms).head?) := rfl
  rw [unfolded]
  by_cases readable : Readable names ms
  · rw [if_pos readable, if_neg fun h => same.mp h readable]
  · rw [if_neg readable, if_pos (same.mpr readable)]

@[simp] theorem valuesOf_append (name : String) (ms ms' : List Member) :
    valuesOf name (ms ++ ms') = valuesOf name ms ++ valuesOf name ms' := by
  simp [valuesOf]

@[simp] theorem valuesOf_cons (name : String) (m : Member) (ms : List Member) :
    valuesOf name (m :: ms) =
      if m.1 = some name then m.2 :: valuesOf name ms else valuesOf name ms := by
  by_cases h : m.1 = some name <;> simp [valuesOf, h]

theorem valuesOf_perm (name : String) {ms ms' : List Member} (order : ms.Perm ms') :
    (valuesOf name ms).Perm (valuesOf name ms') :=
  (order.filter _).map _

theorem length_valuesOf (name : String) (ms : List Member) :
    (valuesOf name ms).length = (ms.map Prod.fst).count (some name) := by
  induction ms with
  | nil => rfl
  | cons m ms ih => by_cases h : m.1 = some name <;> simp [h, ih]

theorem readable_congr {names : List String} {ms ms' : List Member}
    (h : (ms.map Prod.fst).Perm (ms'.map Prod.fst)) : Readable names ms ↔ Readable names ms' := by
  simp only [Readable, length_valuesOf, h.mem_iff, h.count_eq]

theorem readable_value {names : List String} {ms ms' : List Member} {k : Option String}
    (v v' : Json) : Readable names (ms ++ (k, v) :: ms') ↔ Readable names (ms ++ (k, v') :: ms') :=
  readable_congr (by simp)

def FieldRepeated (names : List String) (ms : List Member) : Prop :=
  ∃ name ∈ names, 1 < (ms.map Prod.fst).count (some name)

theorem Readable.head? {names : List String} {ms : List Member} (readable : Readable names ms)
    {name : String} (known : name ∈ names) {v : Json} (h : (some name, v) ∈ ms) :
    (valuesOf name ms).head? = some v := by
  have here : v ∈ valuesOf name ms :=
    List.mem_map.mpr ⟨_, List.mem_filter.mpr ⟨h, by simp⟩, rfl⟩
  have once := readable.2 name known
  match valuesOf name ms, here, once with
  | [w], here, _ => rw [List.mem_singleton.mp here]; rfl

theorem fields?_member {names : List String} {k : String} (known : k ∈ names)
    (before after : List Member) (v : Json) :
    fields? names (.obj (before ++ (some k, v) :: after)) =
      if Readable names (before ++ (some k, .null) :: after) then
        some (names.map fun name =>
          if name = k then some v else (valuesOf name (before ++ after)).head?)
      else none := by
  rw [fields?_obj]
  by_cases readable : Readable names (before ++ (some k, v) :: after)
  · have value := readable.head? known (List.mem_append_right before List.mem_cons_self)
    rw [if_pos readable, if_pos ((readable_value v .null).mp readable)]
    congr 1
    refine List.map_congr_left fun name _ => ?_
    by_cases own : name = k
    · rw [if_pos own, own, value]
    · simp [own, Ne.symm own]
  · rw [if_neg readable, if_neg (mt (readable_value v .null).mpr readable)]

/-- A field of a record: its name, its default, and what the value under its name, or its absence,
makes of the record. -/
structure Column (σ : Type) where
  name : String
  default : Json
  fill : Option Json → σ → Option σ
  stable : Stable fun v => fill (some v)
  absent : fill (some default) = fill none

def Column.of {α σ : Type} (name : String) (d : α) (f : Json → Option α) (put : σ → α → σ)
    (default : Json) (stable : Stable f) (absent : f default = some d) : Column σ where
  name := name
  default := default
  fill := fun v? s => (orDefault d f v?).map (put s)
  stable := by
    intro v v' order
    funext s
    exact congrArg (Option.map (put s)) (stable v v' order)
  absent := by
    funext s
    exact congrArg (Option.map (put s)) absent

def record {σ : Type} (columns : List (Column σ)) (s : σ) (v : Json) : Option σ :=
  (v.fields? (columns.map Column.name)).bind fun vs =>
    (columns.zipWith Column.fill vs).foldlM (fun s fill => fill s) s

theorem fields?_listed {names : List String} {v : Json} {vs : List (Option Json)}
    (h : v.fields? names = some vs) :
    ∃ field : Nat → Option Json, vs = (List.range names.length).map field := by
  have length : vs.length = names.length := by
    unfold fields? at h
    grind
  refine ⟨fun i => vs.getD i none, List.ext_getElem (by simp [length]) fun i hi _ => ?_⟩
  simp [List.getElem?_eq_getElem hi]

section

variable {σ : Type} {columns : List (Column σ)} {s : σ} {ms ms' : List Member}

theorem record_obj (columns : List (Column σ)) (s : σ) (ms : List Member) :
    record columns s (.obj ms) =
      if Readable (columns.map Column.name) ms then
        (columns.map fun c => c.fill (valuesOf c.name ms).head?).foldlM (fun s fill => fill s) s
      else none := by
  rw [record, fields?_obj]
  split
  · rw [Option.bind_some, List.map_map, List.zipWith_map_right, List.zipWith_self]
    rfl
  · rfl

theorem record_congr
    (readable : Readable (columns.map Column.name) ms ↔ Readable (columns.map Column.name) ms')
    (same : Readable (columns.map Column.name) ms → ∀ c ∈ columns,
      c.fill (valuesOf c.name ms).head? = c.fill (valuesOf c.name ms').head?) :
    record columns s (.obj ms) = record columns s (.obj ms') := by
  rw [record_obj, record_obj]
  by_cases h : Readable (columns.map Column.name) ms
  · rw [if_pos h, if_pos (readable.mp h), List.map_congr_left (same h)]
  · rw [if_neg h, if_neg fun h' => h (readable.mpr h')]

theorem record_value {k : Option String} {v v' : Json}
    (same : ∀ c ∈ columns, k = some c.name → c.fill (some v) = c.fill (some v')) :
    record columns s (.obj (ms ++ (k, v) :: ms')) =
      record columns s (.obj (ms ++ (k, v') :: ms')) := by
  refine record_congr (readable_value v v') fun _ c hc => ?_
  by_cases own : k = some c.name
  · cases h : valuesOf c.name ms <;> simp [own, h, same c hc own]
  · simp [own]

theorem zipWith_fill {v? v?' : Option Json} (before after : List (Option Json))
    (same : ∀ c ∈ columns, c.fill v? = c.fill v?') :
    columns.zipWith Column.fill (before ++ v? :: after) =
      columns.zipWith Column.fill (before ++ v?' :: after) := by
  induction before generalizing columns with
  | nil => cases columns <;> simp_all
  | cons u? before ih =>
    cases columns with
    | nil => rfl
    | cons c columns =>
      have later := ih fun c' hc' => same c' (List.mem_cons_of_mem c hc')
      simp only [List.cons_append, List.zipWith_cons_cons, later]

theorem record_item {v v' : Json} {before after : List Json}
    (same : ∀ c ∈ columns, c.fill (some v) = c.fill (some v')) :
    record columns s (.arr (before ++ v :: after)) =
      record columns s (.arr (before ++ v' :: after)) := by
  simp only [record, fields?, List.length_append, List.length_cons, List.map_append, List.map_cons,
    List.append_assoc, List.cons_append]
  split
  · rw [Option.bind_some, Option.bind_some, zipWith_fill _ _ same]
  · rfl

theorem short_perm {β : Type} {xs ys : List β} (order : xs.Perm ys) (short : xs.length ≤ 1) :
    xs = ys := by
  match xs, short with
  | [], _ => exact order.nil_eq
  | [_], _ => exact order.singleton_eq

theorem stable_record (columns : List (Column σ)) (s : σ) : Stable (record columns s) := by
  rintro _ _ (⟨-, order⟩ | ⟨before, after, inner⟩ | ⟨k, before, after, inner⟩)
  -- with a name repeated the record is refused in any order, so the keys need not be distinct here
  · refine record_congr (readable_congr (order.map Prod.fst)) fun readable c hc => ?_
    have once := readable.2 c.name (List.mem_map_of_mem hc)
    rw [short_perm (valuesOf_perm c.name order) once]
  · exact record_item fun c _ => c.stable _ _ inner
  · exact record_value fun c _ _ => c.stable _ _ inner

theorem foldlM_unread {fills : List (σ → Option σ)} {fill : σ → Option σ} (mem : fill ∈ fills)
    (h : ∀ s, fill s = none) (s : σ) : fills.foldlM (fun s fill => fill s) s = none := by
  induction fills generalizing s with
  | nil => cases mem
  | cons f fills ih =>
    rw [List.foldlM_cons]
    rcases List.mem_cons.mp mem with rfl | mem
    · rw [h]
      rfl
    · cases hf : f s with
      | none => rfl
      | some s' => exact ih mem s'

theorem record_unread {c : Column σ} (hc : c ∈ columns) {v : Json} (mem : (some c.name, v) ∈ ms)
    (h : ∀ s, c.fill (some v) s = none) : record columns s (.obj ms) = none := by
  rw [record_obj]
  split
  · rename_i readable
    have value := readable.head? (List.mem_map_of_mem hc) mem
    refine foldlM_unread (List.mem_map.mpr ⟨c, hc, rfl⟩) (fun s => ?_) s
    rw [value, h]
  · rfl

theorem record_repeated (h : FieldRepeated (columns.map Column.name) ms) :
    record columns s (.obj ms) = none := by
  obtain ⟨name, known, twice⟩ := h
  rw [record_obj, if_neg]
  intro readable
  have once := readable.2 name known
  rw [length_valuesOf] at once
  omega

end

/-- A member is put somewhere into an object: one with an unknown name, which is text, and any value,
or the default of a field that is left out. -/
inductive FieldsEdited (defaults : List (String × Json)) : List Member → List Member → Prop
  | unknown {k : String} (v : Json) {ms ms' : List Member} (unknown : k ∉ defaults.map Prod.fst) :
    FieldsEdited defaults (ms ++ ms') (ms ++ (some k, v) :: ms')
  | default {k : String} {d : Json} {ms ms' : List Member} (known : (k, d) ∈ defaults)
    (absent : some k ∉ (ms ++ ms').map Prod.fst) :
    FieldsEdited defaults (ms ++ ms') (ms ++ (some k, d) :: ms')

theorem record_edited {σ : Type} {columns : List (Column σ)} {s : σ}
    (distinct : (columns.map Column.name).Nodup) {ms ms' : List Member}
    (edit : FieldsEdited (columns.map fun c => (c.name, c.default)) ms ms') :
    record columns s (.obj ms) = record columns s (.obj ms') := by
  cases edit with
  | @unknown k v ms ms' unknown =>
    rw [List.map_map] at unknown
    have other {name : String} (hn : name ∈ columns.map Column.name) : k ≠ name := by
      rintro rfl
      exact unknown hn
    apply record_congr
    · simp +contextual [Readable, other]
    · intro _ c hc
      simp [other (List.mem_map_of_mem hc)]
  | @default k d ms ms' known absent =>
    obtain ⟨c, hc, same⟩ := List.mem_map.mp known
    cases same
    have free : valuesOf c.name (ms ++ ms') = [] := by
      rwa [← List.length_eq_zero_iff, length_valuesOf, List.count_eq_zero]
    rw [valuesOf_append, List.append_eq_nil_iff] at free
    apply record_congr
    · have once (name : String) :
          (valuesOf name (ms ++ (some c.name, c.default) :: ms')).length ≤ 1 ↔
            (valuesOf name (ms ++ ms')).length ≤ 1 := by
        by_cases hn : c.name = name
        · subst hn
          simp [free]
        · simp [hn]
      simp only [Readable, once]
      simp
    · intro _ c' hc'
      by_cases own : c.name = c'.name
      · rw [List.inj_on_of_nodup_map distinct hc hc' own] at free ⊢
        simp [free, c'.absent]
      · simp [own]

end SemanticHighlight.Json
