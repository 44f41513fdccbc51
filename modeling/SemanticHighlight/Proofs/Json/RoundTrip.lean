import SemanticHighlight.Json.Reader
import SemanticHighlight.Proofs.Json.Spelling

/-!
# Values read back

Every value is read from its own tokens. A value whose numbers are integers is read back from its
compact and from its pretty text: both spell its tokens, and neither lets a number or a word be
followed by anything but white space or a mark.
-/

set_option autoImplicit false

namespace SemanticHighlight.Json

/-- What holds of a container whenever it holds of all that is in it, holds of every value. -/
@[elab_as_elim, induction_eliminator]
theorem induct {P : Json → Prop} (null : P .null) (bool : ∀ b, P (.bool b)) (int : ∀ n, P (.int n))
    (real : ∀ l, P (.real l)) (str : ∀ s, P (.str s))
    (arr : ∀ items, (∀ v ∈ items, P v) → P (.arr items))
    (obj : ∀ members, (∀ m ∈ members, P m.2) → P (.obj members)) : ∀ v, P v
  | .null => null
  | .bool b => bool b
  | .int n => int n
  | .real l => real l
  | .str s => str s
  | .arr items => arr items fun v _ => induct null bool int real str arr obj v
  | .obj members => obj members fun m _ => induct null bool int real str arr obj m.2
termination_by v => sizeOf v
decreasing_by
  · have := List.sizeOf_lt_of_mem ‹_›
    simp only [Json.arr.sizeOf_spec]
    omega
  · have := List.sizeOf_lt_of_mem ‹_›
    obtain ⟨k, v⟩ := m
    simp only [Json.obj.sizeOf_spec, Prod.mk.sizeOf_spec] at *
    omega

theorem steps_cons (r : Reading) (t : Token) (ts : List Token) :
    steps r (t :: ts) = (step r t).bind fun r => steps r ts := rfl

theorem tokens_head (v : Json) : ∃ t ts, v.tokens = t :: ts ∧ t ≠ .closeArr := by
  cases v <;> exact ⟨_, _, rfl, by simp⟩

theorem steps_firstItem (stack : List Open) (v : Json) (ts : List Token) :
    steps ⟨.arr [] :: stack, .firstItem⟩ (v.tokens ++ ts) =
      steps ⟨.arr [] :: stack, .value⟩ (v.tokens ++ ts) := by
  obtain ⟨t, us, hv, ht⟩ := v.tokens_head
  rw [hv, List.cons_append, steps_cons, steps_cons]
  cases t <;> first | rfl | exact absurd rfl ht

/-- Whatever containers are open, the tokens of the value are read as the value. -/
def ReadsBack (v : Json) : Prop := ∀ stack ts,
  steps ⟨stack, .value⟩ (v.tokens ++ ts) = steps ⟨stack, .afterValue v⟩ ts

theorem steps_moreTokens {vs : List Json} (h : ∀ v ∈ vs, v.ReadsBack) (stack : List Open)
    (v : Json) (before : List Json) (ts : List Token) :
    steps ⟨.arr before :: stack, .afterValue v⟩ (moreTokens vs ++ .closeArr :: ts) =
      steps ⟨stack, .afterValue (.arr (before.reverse ++ v :: vs))⟩ ts := by
  induction vs generalizing v before with
  | nil => simp [moreTokens, steps, step]
  | cons w vs ih =>
    have later := ih (fun u hu => h u (List.mem_cons_of_mem w hu)) w (v :: before)
    rw [moreTokens]
    simp only [List.cons_append, List.append_assoc, steps_cons, step, Option.bind_some]
    rw [h w (by simp), later]
    simp

theorem steps_moreMemberTokens {ms : List Member} (h : ∀ m ∈ ms, m.2.ReadsBack)
    (stack : List Open) (k : Option String) (v : Json) (before : List Member) (ts : List Token) :
    steps ⟨.obj before k :: stack, .afterValue v⟩ (moreMemberTokens ms ++ .closeObj :: ts) =
      steps ⟨stack, .afterValue (.obj (before.reverse ++ (k, v) :: ms))⟩ ts := by
  induction ms generalizing k v before with
  | nil => simp [moreMemberTokens, steps, step]
  | cons m ms ih =>
    obtain ⟨j, w⟩ := m
    have later := ih (fun u hu => h u (List.mem_cons_of_mem _ hu)) j w ((k, v) :: before)
    rw [moreMemberTokens]
    simp only [List.cons_append, List.append_assoc, steps_cons, step, Option.bind_some]
    rw [h (j, w) (by simp), later]
    simp

theorem reads_back (v : Json) : v.ReadsBack := by
  intro stack ts
  induction v generalizing stack ts with
  | null | bool b | int n | real l | str s => rfl
  | arr items ih =>
    have ih : ∀ v ∈ items, v.ReadsBack := ih
    cases items with
    | nil => rfl
    | cons v vs =>
      rw [tokens, itemTokens]
      simp only [List.cons_append, List.append_assoc, List.nil_append, steps_cons, step, beginValue,
        Option.bind_some]
      rw [steps_firstItem, ih v (by simp),
        steps_moreTokens fun u hu => ih u (List.mem_cons_of_mem v hu)]
      rfl
  | obj members ih =>
    have ih : ∀ m ∈ members, m.2.ReadsBack := ih
    cases members with
    | nil => rfl
    | cons m ms =>
      obtain ⟨k, v⟩ := m
      rw [tokens, memberTokens]
      simp only [List.cons_append, List.append_assoc, List.nil_append, steps_cons, step, beginValue,
        Option.bind_some]
      rw [ih (k, v) (by simp),
        steps_moreMemberTokens fun u hu => ih u (List.mem_cons_of_mem _ hu)]
      rfl

theorem ofTokens?_tokens (v : Json) : ofTokens? v.tokens = some v := by
  have h := v.reads_back [] []
  rw [List.append_nil] at h
  rw [ofTokens?, h]
  rfl

def Separated : List Token → Prop
  | [] => True
  | t :: ts => (t.isBare = true → ∀ u ∈ ts.head?, u.isMark = true) ∧ Separated ts

theorem Spells.cons {t : Token} {ts : List Token} {cs : List Char} (h : Spells ts cs)
    (whole : t.isReal = false) (separated : Separated (t :: ts)) (gap : List Char)
    (blank : ∀ c ∈ gap, isSpace c = true) : Spells (t :: ts) (t.spelling ++ gap ++ cs) := by
  rw [List.append_assoc]
  refine .token whole (fun bare => ?_) (h.spaces blank)
  cases gap with
  | nil => exact h.delimited (separated.1 bare)
  | cons c gap =>
    rintro d ⟨⟩
    exact part_of_space (blank c (by simp))

theorem gap_blank (d : Nat) (t : Token) (next : Option Token) :
    ∀ c ∈ gap d t next, isSpace c = true := by
  have line (d : Nat) : ∀ c ∈ newLine d, isSpace c = true := by
    intro c hc
    rcases List.mem_cons.mp hc with rfl | hc
    · rfl
    · rw [List.eq_of_mem_replicate hc]
      rfl
  unfold gap
  grind [isSpace]

theorem spells_layout {ts : List Token} (whole : ∀ t ∈ ts, t.isReal = false)
    (separated : Separated ts) (d : Nat) : Spells ts (layout d ts) := by
  induction ts generalizing d with
  | nil => exact .nil
  | cons t ts ih =>
    have later := ih (fun u hu => whole u (List.mem_cons_of_mem t hu)) separated.2 (t.depth d)
    exact later.cons (whole t (by simp)) separated _ (gap_blank _ t ts.head?)

theorem spells_spellings {ts : List Token} (whole : ∀ t ∈ ts, t.isReal = false)
    (separated : Separated ts) : Spells ts (ts.flatMap Token.spelling) := by
  induction ts with
  | nil => exact .nil
  | cons t ts ih =>
    have later := ih (fun u hu => whole u (List.mem_cons_of_mem t hu)) separated.2
    simpa using later.cons (whole t (by simp)) separated [] (by simp)

def Closing (ts : List Token) : Prop := Separated ts ∧ ∀ t ∈ ts.head?, t.isMark = true

theorem Closing.cons {t : Token} {ts : List Token} (mark : t.isMark = true) (h : Separated ts) :
    Closing (t :: ts) := by
  refine ⟨⟨fun bare => ?_, h⟩, ?_⟩
  · cases t <;> cases mark <;> cases bare
  · rintro u ⟨⟩
    exact mark

/-- The tokens of the value can stand before any tokens that may follow one. -/
def Joins (v : Json) : Prop := ∀ ts, Closing ts → Separated (v.tokens ++ ts)

theorem moreTokens_closing {vs : List Json} (h : ∀ v ∈ vs, v.Joins) {ts : List Token}
    (closing : Closing ts) : Closing (moreTokens vs ++ ts) := by
  induction vs with
  | nil => exact closing
  | cons v vs ih =>
    have later := ih fun u hu => h u (List.mem_cons_of_mem v hu)
    rw [moreTokens, List.cons_append, List.cons_append, List.append_assoc]
    exact .cons rfl (h v (by simp) _ later)

theorem moreMemberTokens_closing {ms : List Member} (h : ∀ m ∈ ms, m.2.Joins) {ts : List Token}
    (closing : Closing ts) : Closing (moreMemberTokens ms ++ ts) := by
  induction ms with
  | nil => exact closing
  | cons m ms ih =>
    obtain ⟨k, v⟩ := m
    have later := ih fun u hu => h u (List.mem_cons_of_mem _ hu)
    rw [moreMemberTokens]
    simp only [List.cons_append, List.append_assoc]
    exact .cons rfl ⟨nofun, (Closing.cons rfl (h (k, v) (by simp) _ later)).1⟩

theorem joins (v : Json) : v.Joins := by
  induction v with
  | null | bool b | int n | real l => exact fun ts h => ⟨fun _ => h.2, h.1⟩
  | str s => exact fun ts h => ⟨nofun, h.1⟩
  | arr items ih =>
    intro ts h
    have ends := Closing.cons (t := .closeArr) rfl h.1
    cases items with
    | nil => exact ⟨nofun, ends.1⟩
    | cons v vs =>
      have later := moreTokens_closing (fun u hu => ih u (List.mem_cons_of_mem v hu)) ends
      have first := ih v (by simp) _ later
      simpa [tokens, itemTokens] using (Closing.cons (t := .openArr) rfl first).1
  | obj members ih =>
    intro ts h
    have ends := Closing.cons (t := .closeObj) rfl h.1
    cases members with
    | nil => exact ⟨nofun, ends.1⟩
    | cons m ms =>
      obtain ⟨k, v⟩ := m
      have later := moreMemberTokens_closing (fun u hu => ih u (List.mem_cons_of_mem _ hu)) ends
      have first := Closing.cons (t := .colon) rfl (ih (k, v) (by simp) _ later)
      have key : Separated (.text k :: .colon :: (v.tokens ++
        (moreMemberTokens ms ++ .closeObj :: ts))) := ⟨nofun, first.1⟩
      simpa [tokens, memberTokens] using (Closing.cons (t := .openObj) rfl key).1

theorem tokens_separated (v : Json) : Separated v.tokens := by
  simpa using v.joins [] ⟨trivial, nofun⟩

/-- The numbers of the value are integers. -/
def Whole (v : Json) : Prop := ∀ t ∈ v.tokens, t.isReal = false

theorem moreTokens_whole {vs : List Json} (h : ∀ v ∈ vs, v.Whole) :
    ∀ t ∈ moreTokens vs, t.isReal = false := by
  induction vs with
  | nil => nofun
  | cons v vs ih =>
    intro t ht
    simp only [moreTokens, List.cons_append, List.mem_cons, List.mem_append] at ht
    rcases ht with rfl | first | later
    · rfl
    · exact h v (by simp) t first
    · exact ih (fun u hu => h u (List.mem_cons_of_mem v hu)) t later

theorem moreMemberTokens_whole {ms : List Member} (h : ∀ m ∈ ms, m.2.Whole) :
    ∀ t ∈ moreMemberTokens ms, t.isReal = false := by
  induction ms with
  | nil => nofun
  | cons m ms ih =>
    obtain ⟨k, v⟩ := m
    intro t ht
    simp only [moreMemberTokens, List.cons_append, List.mem_cons, List.mem_append] at ht
    rcases ht with rfl | rfl | rfl | first | later
    · rfl
    · rfl
    · rfl
    · exact h (k, v) (by simp) t first
    · exact ih (fun u hu => h u (List.mem_cons_of_mem _ hu)) t later

theorem whole_arr {items : List Json} (h : ∀ v ∈ items, v.Whole) : (arr items).Whole := by
  -- the first item stands where each other item has a comma in front
  have items : ∀ t ∈ itemTokens items, t ∈ moreTokens items := by
    cases items <;> simp +contextual [itemTokens, moreTokens]
  intro t ht
  simp only [tokens, List.cons_append, List.mem_cons, List.mem_append, List.not_mem_nil,
    or_false] at ht
  rcases ht with rfl | ht | rfl
  · rfl
  · exact moreTokens_whole h t (items t ht)
  · rfl

theorem whole_obj {members : List Member} (h : ∀ m ∈ members, m.2.Whole) :
    (obj members).Whole := by
  have members : ∀ t ∈ memberTokens members, t ∈ moreMemberTokens members := by
    cases members <;> simp +contextual [memberTokens, moreMemberTokens]
  intro t ht
  simp only [tokens, List.cons_append, List.mem_cons, List.mem_append, List.not_mem_nil,
    or_false] at ht
  rcases ht with rfl | ht | rfl
  · rfl
  · exact moreMemberTokens_whole h t (members t ht)
  · rfl

theorem whole_int (n : Int) : (int n).Whole := by
  simp [Whole, tokens, Token.isReal]

theorem whole_bool (b : Bool) : (bool b).Whole := by
  simp [Whole, tokens, Token.isReal]

theorem whole_ofText (s : String) : (ofText s).Whole := by
  simp [Whole, ofText, tokens, Token.isReal]

theorem read?_compact {v : Json} (h : v.Whole) : read? v.compact = some v := by
  rw [read?, compact, (spells_spellings h v.tokens_separated).lex_eq, Option.bind_some,
    ofTokens?_tokens]

theorem read?_pretty {v : Json} (h : v.Whole) : read? v.pretty = some v := by
  rw [read?, pretty, (spells_layout h v.tokens_separated 0).lex_eq, Option.bind_some,
    ofTokens?_tokens]

theorem mapM_map_some {α β : Type} (write : α → β) (read : β → Option α)
    (h : ∀ x, read (write x) = some x) (xs : List α) : (xs.map write).mapM read = some xs := by
  have same : read ∘ write = fun x => pure (id x) := funext h
  rw [List.mapM_map, same, List.mapM_pure, List.map_id]
  rfl

end SemanticHighlight.Json
