import SemanticHighlight.Highlight.Classify
import SemanticHighlight.Proofs.Highlight.Selection

/-!
# The chase of a reference

The cursor a token is judged by, and what it tells. In the base language it is the token's own
cursor. In the others a reference to a type is followed, but no further than two hops, so that the
chase ends in a circle of references too, and of the chain of references only the first three
cursors are looked at. `Tells` is the table of the kinds: most have one tag, some ask for the name
of the token or for its type, and a macro definition asks for the kind before it.
-/

set_option autoImplicit false

namespace SemanticHighlight.Classify

variable {Cursor Ty : Type}

structure Seen (table : GroupTable) (token : Token Cursor Ty) : Prop where
  inFile : token.line?.isSome = true
  heeded : token.text ∉ table.ignored.words

instance (table : GroupTable) (token : Token Cursor Ty) : Decidable (Seen table token) :=
  decidable_of_iff (token.line?.isSome = true ∧ token.text ∉ table.ignored.words)
    ⟨fun h => ⟨h.1, h.2⟩, fun h => ⟨h.inFile, h.heeded⟩⟩

theorem seen_iff {table : GroupTable} {token : Token Cursor Ty} :
    Seen table token ↔ (token.line?.isNone || table.isIgnored token.text) = false := by
  rw [Bool.or_eq_false_iff, Option.isNone_eq_false_iff, ← Bool.not_eq_true (table.isIgnored _),
    GroupTable.isIgnored_iff]
  exact ⟨fun h => ⟨h.inFile, h.heeded⟩, fun h => ⟨h.1, h.2⟩⟩

/-- A reference to a type leads to its declaration, if one was found and it is another cursor. -/
structure Hop (f : Frontend Cursor Ty) (c d : Cursor) : Prop where
  reference : f.kind c = .typeRef
  target : f.referenced c = some d
  distinct : d ≠ c
  found : f.kind d ≠ .noDeclFound

/-- Where hops lead, as far as there are any, but no further than so many. -/
inductive Leads (f : Frontend Cursor Ty) : Nat → Cursor → Cursor → Prop
  | spent (c : Cursor) : Leads f 0 c c
  | ends {hops : Nat} {c : Cursor} (last : ∀ d, ¬Hop f c d) : Leads f hops c c
  | hop {hops : Nat} {c d e : Cursor} (first : Hop f c d) (rest : Leads f hops d e) :
    Leads f (hops + 1) c e

inductive Final (f : Frontend Cursor Ty) (l : Language) (c : Cursor) : Cursor → Prop
  | own (base : l = .c) : Final f l c c
  | led {d : Cursor} (other : l ≠ .c) (leads : Leads f 2 c d) : Final f l c d

theorem leads_some (f : Frontend Cursor Ty) (hops : Nat) (c : Cursor) : ∃ d, Leads f hops c d := by
  induction hops generalizing c with
  | zero => exact ⟨c, .spent c⟩
  | succ hops ih =>
    by_cases more : ∃ d, Hop f c d
    · obtain ⟨d, first⟩ := more
      obtain ⟨e, rest⟩ := ih d
      exact ⟨e, .hop first rest⟩
    · exact ⟨c, .ends fun d first => more ⟨d, first⟩⟩

theorem final_some (f : Frontend Cursor Ty) (l : Language) (c : Cursor) : ∃ d, Final f l c d := by
  by_cases base : l = .c
  · exact ⟨c, .own base⟩
  · obtain ⟨d, leads⟩ := leads_some f 2 c
    exact ⟨d, .led base leads⟩

/-- The kinds that have one tag. A reference to a type that is not followed counts as a type. -/
def certain? : CursorKind → Option Tag
  | .typedefDecl | .typeAliasDecl | .typeAliasTemplateDecl => some .types
  | .typeRef | .templateTypeParameter => some .types
  | .structDecl => some .structs
  | .unionDecl => some .unions
  | .enumDecl => some .enums
  | .enumConstantDecl | .flagEnum => some .enumConstants
  | .fieldDecl | .memberRef => some .members
  | .method | .constructor | .destructor | .conversionFunction => some .methods
  | .functionDecl | .callExpr | .functionTemplate => some .functions
  | .classTemplate => some .classes
  | .templateRef => some .templates
  | .namespaceAlias | .namespaceRef => some .namespaces
  | .macroExpansion => some .directives
  | _ => none

/-- The kinds whose tag stands for the token only if it spells the name. -/
def naming? : CursorKind → Option Tag
  | .classDecl => some .classes
  | .namespaceDecl => some .namespaces
  | _ => none

def silent : List CursorKind := [
  .nonTypeTemplateParameter, .preprocessingDirective, .overloadedDeclRef, .parmDecl, .noDeclFound,
  .other]

def Named (f : Frontend Cursor Ty) (token : Token Cursor Ty) (c : Cursor) : Prop :=
  f.spelling c = token.text ∨
    ∃ t d, token.type? = some t ∧ f.declaration t = some d ∧ f.displayName d = token.text

/-- What the cursor tells about the token: a tag or none. -/
inductive Tells (f : Frontend Cursor Ty) (l : Language) (previous : Option CursorKind)
    (token : Token Cursor Ty) (c : Cursor) : Option Tag → Prop
  | certain {tag : Tag} (row : certain? (f.kind c) = some tag) :
    Tells f l previous token c (some tag)
  | named {tag : Tag} (row : naming? (f.kind c) = some tag) (name : Named f token c) :
    Tells f l previous token c (some tag)
  | unnamed {tag : Tag} (row : naming? (f.kind c) = some tag) (other : ¬Named f token c) :
    Tells f l previous token c none
  | dependent {t : Ty} (kind : f.kind c = .memberRefExpr) (other : l ≠ .c)
    (typed : token.type? = some t) (unexposed : f.canonicalKind t = .unexposed) :
    Tells f l previous token c (some .methods)
  | member (kind : f.kind c = .memberRefExpr)
    (plain : l = .c ∨ ∀ t, token.type? = some t → f.canonicalKind t ≠ .unexposed) :
    Tells f l previous token c (some .members)
  | directive (kind : f.kind c = .macroDefinition)
    (after : previous = some .preprocessingDirective) :
    Tells f l previous token c (some .directives)
  | definition (kind : f.kind c = .macroDefinition)
    (elsewhere : previous ≠ some .preprocessingDirective) : Tells f l previous token c none
  | constant {t : Ty} (kind : f.kind c = .declRefExpr) (typed : token.type? = some t)
    (enumeration : f.typeKind t = .enumeration) : Tells f l previous token c (some .enumConstants)
  | operator {t : Ty} (kind : f.kind c = .declRefExpr) (typed : token.type? = some t)
    (function : f.typeKind t = .functionProto) (punctuation : token.kind = .punctuation) :
    Tells f l previous token c (some .operators)
  | function {t : Ty} (kind : f.kind c = .declRefExpr) (typed : token.type? = some t)
    (function : f.typeKind t = .functionProto) (word : token.kind ≠ .punctuation) :
    Tells f l previous token c (some .functions)
  | value (kind : f.kind c = .declRefExpr)
    (plain : ∀ t, token.type? = some t → f.typeKind t ∉ [.enumeration, .functionProto]) :
    Tells f l previous token c none
  | silent (kind : f.kind c ∈ silent) : Tells f l previous token c none

variable {f g : Frontend Cursor Ty} {l : Language} {previous : Option CursorKind}
  {token : Token Cursor Ty}

theorem tells_some (f : Frontend Cursor Ty) (l : Language) (previous : Option CursorKind)
    (token : Token Cursor Ty) (c : Cursor) : ∃ t, Tells f l previous token c t := by
  -- the kinds that ask for more come first, and the rest have a row of their own
  cases kind : f.kind c
  case classDecl | namespaceDecl =>
    by_cases name : Named f token c
    · exact ⟨_, .named (by rw [kind]; rfl) name⟩
    · exact ⟨_, .unnamed (by rw [kind]; rfl) name⟩
  case memberRefExpr =>
    by_cases base : l = .c
    · exact ⟨_, .member kind (.inl base)⟩
    · by_cases dependent : ∃ t, token.type? = some t ∧ f.canonicalKind t = .unexposed
      · obtain ⟨t, typed, unexposed⟩ := dependent
        exact ⟨_, .dependent kind base typed unexposed⟩
      · exact ⟨_, .member kind (.inr fun t typed same => dependent ⟨t, typed, same⟩)⟩
  case macroDefinition =>
    by_cases after : previous = some .preprocessingDirective
    · exact ⟨_, .directive kind after⟩
    · exact ⟨_, .definition kind after⟩
  case declRefExpr =>
    cases typed : token.type? with
    | none => exact ⟨_, .value kind fun t ht => by cases typed.symm.trans ht⟩
    | some t =>
      by_cases enumeration : f.typeKind t = .enumeration
      · exact ⟨_, .constant kind typed enumeration⟩
      · by_cases function : f.typeKind t = .functionProto
        · by_cases punctuation : token.kind = .punctuation
          · exact ⟨_, .operator kind typed function punctuation⟩
          · exact ⟨_, .function kind typed function punctuation⟩
        · refine ⟨_, .value kind fun u hu => ?_⟩
          cases typed.symm.trans hu
          simp [enumeration, function]
  case nonTypeTemplateParameter | preprocessingDirective | overloadedDeclRef | parmDecl
      | noDeclFound | other =>
    exact ⟨_, .silent (by rw [kind]; decide)⟩
  all_goals exact ⟨_, .certain (by rw [kind]; rfl)⟩

/-- What a cursor tells is a matter of its kind, the name, the type of the token, and the kind
before, which only a macro definition asks for. -/
theorem Tells.transfer {previous' : Option CursorKind} {c : Cursor} {t : Option Tag}
    (same : f.kind c = g.kind c) (names : Named f token c ↔ Named g token c)
    (types : ∀ t, token.type? = some t →
      f.typeKind t = g.typeKind t ∧ f.canonicalKind t = g.canonicalKind t)
    (before : f.kind c = .macroDefinition → previous = previous')
    (told : Tells f l previous token c t) : Tells g l previous' token c t := by
  cases told with
  | certain row => exact .certain (same ▸ row)
  | named row name => exact .named (same ▸ row) (names.1 name)
  | unnamed row other => exact .unnamed (same ▸ row) (mt names.2 other)
  | dependent kind other typed unexposed =>
    exact .dependent (same ▸ kind) other typed ((types _ typed).2 ▸ unexposed)
  | member kind plain =>
    exact .member (same ▸ kind)
      (plain.imp_right fun exposed t typed => (types t typed).2 ▸ exposed t typed)
  | directive kind after => exact .directive (same ▸ kind) (before kind ▸ after)
  | definition kind elsewhere => exact .definition (same ▸ kind) (before kind ▸ elsewhere)
  | constant kind typed enumeration =>
    exact .constant (same ▸ kind) typed ((types _ typed).1 ▸ enumeration)
  | operator kind typed function punctuation =>
    exact .operator (same ▸ kind) typed ((types _ typed).1 ▸ function) punctuation
  | function kind typed function word =>
    exact .function (same ▸ kind) typed ((types _ typed).1 ▸ function) word
  | value kind plain =>
    exact .value (same ▸ kind) fun t typed => (types t typed).1 ▸ plain t typed
  | silent kind => exact .silent (same ▸ kind)

theorem Tells.anyway {previous' : Option CursorKind} {c : Cursor} {t : Option Tag}
    (kind : f.kind c ≠ .macroDefinition) (told : Tells f l previous token c t) :
    Tells f l previous' token c t :=
  told.transfer rfl Iff.rfl (fun _ _ => ⟨rfl, rfl⟩) fun read => absurd read kind

/-- Two frontends say the same of the first cursors of a chain of references: of each its kind and
name, and of each but the last where it refers to. -/
inductive Alike (f g : Frontend Cursor Ty) : Nat → Cursor → Prop
  | here {c : Cursor} (kind : f.kind c = g.kind c) (name : f.spelling c = g.spelling c) :
    Alike f g 0 c
  | on {hops : Nat} {c : Cursor} (kind : f.kind c = g.kind c) (name : f.spelling c = g.spelling c)
    (target : f.referenced c = g.referenced c)
    (rest : ∀ d, f.referenced c = some d → Alike f g hops d) : Alike f g (hops + 1) c

structure TypedAlike (f g : Frontend Cursor Ty) (t : Ty) : Prop where
  kind : f.typeKind t = g.typeKind t
  canonical : f.canonicalKind t = g.canonicalKind t
  declaration : f.declaration t = g.declaration t
  name : ∀ d, f.declaration t = some d → f.displayName d = g.displayName d

theorem Alike.kind {hops : Nat} {c : Cursor} (h : Alike f g hops c) : f.kind c = g.kind c := by
  cases h <;> assumption

theorem Alike.name {hops : Nat} {c : Cursor} (h : Alike f g hops c) :
    f.spelling c = g.spelling c := by
  cases h <;> assumption

theorem Alike.hop_iff {hops : Nat} {c d : Cursor} (h : Alike f g (hops + 1) c) :
    Hop f c d ↔ Hop g c d := by
  cases h with
  | on kind name target rest =>
    constructor
    · rintro ⟨reference, refers, distinct, found⟩
      exact ⟨kind ▸ reference, target ▸ refers, distinct, (rest d refers).kind ▸ found⟩
    · rintro ⟨reference, refers, distinct, found⟩
      rw [← target] at refers
      exact ⟨kind ▸ reference, refers, distinct, (rest d refers).kind ▸ found⟩

theorem Alike.leads {hops : Nat} {c d : Cursor} (h : Alike f g hops c) (leads : Leads f hops c d) :
    Leads g hops c d ∧ ∃ left, Alike f g left d := by
  -- each hop uses up one cursor of the chain, and as many are left as hops
  induction leads with
  | spent c => exact ⟨.spent c, 0, h⟩
  | @ends hops c last =>
    refine ⟨?_, hops, h⟩
    cases hops with
    | zero => exact .spent c
    | succ hops => exact .ends fun d first => last d (h.hop_iff.2 first)
  | hop first rest ih =>
    have first' := h.hop_iff.1 first
    cases h with
    | on kind name target more =>
      obtain ⟨leads, alike⟩ := ih (more _ first.target)
      exact ⟨.hop first' leads, alike⟩

theorem Alike.final {c d : Cursor} (h : Alike f g 2 c) (final : Final f l c d) :
    Final g l c d ∧ ∃ left, Alike f g left d := by
  cases final with
  | own base => exact ⟨.own base, 2, h⟩
  | led other leads =>
    obtain ⟨leads, alike⟩ := h.leads leads
    exact ⟨.led other leads, alike⟩

theorem Alike.named_iff {hops : Nat} {c : Cursor} (h : Alike f g hops c)
    (typed : ∀ t, token.type? = some t → TypedAlike f g t) : Named f token c ↔ Named g token c := by
  rw [Named, Named, h.name]
  refine or_congr_right ⟨?_, ?_⟩
  · rintro ⟨t, d, ht, declared, name⟩
    exact ⟨t, d, ht, (typed t ht).declaration ▸ declared, (typed t ht).name d declared ▸ name⟩
  · rintro ⟨t, d, ht, declared, name⟩
    rw [← (typed t ht).declaration] at declared
    exact ⟨t, d, ht, declared, (typed t ht).name d declared ▸ name⟩

theorem Alike.tells {hops : Nat} {c : Cursor} {t : Option Tag} (h : Alike f g hops c)
    (typed : ∀ t, token.type? = some t → TypedAlike f g t) (told : Tells f l previous token c t) :
    Tells g l previous token c t :=
  told.transfer h.kind (h.named_iff typed)
    (fun t ht => ⟨(typed t ht).kind, (typed t ht).canonical⟩) fun _ => rfl

theorem isBase_iff : l.isBase = true ↔ l = .c := decide_eq_true_iff

theorem spells_iff {c : Cursor} : spells f token c = true ↔ Named f token c := by
  simp only [spells, Named, Bool.or_eq_true, decide_eq_true_eq, Option.any_eq_true,
    Option.bind_eq_some_iff]
  refine or_congr_right ⟨?_, ?_⟩
  · rintro ⟨d, ⟨t, typed, declared⟩, name⟩
    exact ⟨t, d, typed, declared, name⟩
  · rintro ⟨t, d, typed, declared, name⟩
    exact ⟨d, ⟨t, typed, declared⟩, name⟩

variable [DecidableEq Cursor]

theorem hop?_eq_some_iff {c d : Cursor} (reference : f.kind c = .typeRef) :
    hop? f c = some d ↔ Hop f c d := by
  simp only [hop?, Option.filter_eq_some_iff, Bool.and_eq_true, decide_eq_true_eq]
  exact ⟨fun h => ⟨reference, h.1, h.2.1, h.2.2⟩, fun h => ⟨h.target, h.distinct, h.found⟩⟩

theorem look_certain {c : Cursor} {tag : Tag} (row : certain? (f.kind c) = some tag) :
    look f l.isBase previous token false c = .tag (some tag) := by
  unfold look
  cases kind : f.kind c <;> rw [kind] at row <;> cases row <;> simp

theorem look_naming {c : Cursor} {tag : Tag} (row : naming? (f.kind c) = some tag) :
    look f l.isBase previous token false c =
      .tag (if spells f token c then some tag else none) := by
  unfold look
  cases kind : f.kind c <;> rw [kind] at row <;> cases row <;> rfl

theorem look_silent {c : Cursor} (kind : f.kind c ∈ silent) :
    look f l.isBase previous token false c = .tag none := by
  unfold look
  simp only [silent, List.mem_cons, List.not_mem_nil, or_false] at kind
  rcases kind with kind | kind | kind | kind | kind | kind <;> rw [kind]

theorem look_tells {c : Cursor} {t : Option Tag} (told : Tells f l previous token c t) :
    look f l.isBase previous token false c = .tag t := by
  cases told with
  | certain row => exact look_certain row
  | named row name => rw [look_naming row, if_pos (spells_iff.2 name)]
  | unnamed row other => rw [look_naming row, if_neg (mt spells_iff.1 other)]
  | dependent kind other typed unexposed =>
    simp [look, kind, Language.isBase, other, typed, unexposed]
  | member kind plain =>
    have kept : (!l.isBase && token.type?.any fun t => f.canonicalKind t = .unexposed) = false := by
      rw [Bool.and_eq_false_iff]
      rcases plain with base | exposed
      · exact .inl (by simp [isBase_iff.2 base])
      · exact .inr (by simpa [Option.any_eq_false] using exposed)
    rw [look, kind]
    simp only [kept, Bool.false_eq_true, if_false]
  | directive kind after => simp [look, kind, after]
  | definition kind elsewhere => simp [look, kind, elsewhere]
  | constant kind typed enumeration => simp [look, kind, typed, enumeration]
  | operator kind typed function punctuation => simp [look, kind, typed, function, punctuation]
  | function kind typed function word => simp [look, kind, typed, function, word]
  | value kind plain =>
    rw [look, kind]
    cases typed : token.type? with
    | none => rfl
    | some t =>
      have others : f.typeKind t ≠ .enumeration ∧ f.typeKind t ≠ .functionProto := by
        simpa using plain t typed
      simp only [Option.map_some]
      split <;> simp_all
  | silent kind => exact look_silent kind

theorem look_other {c : Cursor} (base : Bool) (kind : f.kind c ≠ .typeRef) (mayFollow : Bool) :
    look f base previous token mayFollow c = look f base previous token false c := by
  unfold look
  split <;> first | rfl | contradiction

theorem look_hop {c d : Cursor} (other : l ≠ .c) (hop : Hop f c d) :
    look f l.isBase previous token true c = .follow d := by
  have target := (hop?_eq_some_iff hop.reference).2 hop
  simp [look, hop.reference, Language.isBase, other, target]

theorem look_end {c : Cursor} (last : l = .c ∨ ∀ d, ¬Hop f c d) :
    look f l.isBase previous token true c = look f l.isBase previous token false c := by
  by_cases kind : f.kind c = .typeRef
  · rcases last with base | last
    · simp [look, kind, isBase_iff.2 base]
    · have none : hop? f c = none :=
        Option.eq_none_iff_forall_ne_some.2 fun d found => last d ((hop?_eq_some_iff kind).1 found)
      simp [look, kind, none]
  · exact look_other _ kind true

theorem decideOn_end {c : Cursor} {t : Option Tag} (hops : Nat) (last : l = .c ∨ ∀ d, ¬Hop f c d)
    (told : Tells f l previous token c t) :
    decideOn f l.isBase previous token hops c = (c, t) := by
  cases hops with
  | zero => rw [decideOn, look_tells told]
  | succ hops => rw [decideOn, look_end last, look_tells told]

theorem decideOn_leads {hops : Nat} {c d : Cursor} {t : Option Tag} (other : l ≠ .c)
    (leads : Leads f hops c d) (told : Tells f l previous token d t) :
    decideOn f l.isBase previous token hops c = (d, t) := by
  -- along the hops: the tag is that of the last cursor, so it stays the same throughout
  induction leads with
  | spent c => rw [decideOn, look_tells told]
  | ends last => exact decideOn_end _ (.inr last) told
  | hop first rest ih =>
    rw [decideOn, look_hop other first]
    exact ih told

theorem decideOn_final {c d : Cursor} {t : Option Tag} (final : Final f l c d)
    (told : Tells f l previous token d t) :
    decideOn f l.isBase previous token maxHops c = (d, t) := by
  cases final with
  | own base => exact decideOn_end _ (.inl base) told
  | led other leads => exact decideOn_leads other leads told

theorem classify_seen {table : GroupTable} {c : Cursor} {t : Option Tag} (seen : Seen table token)
    (final : Final f table.language token.cursor c)
    (told : Tells f table.language previous token c t) :
    classify f table previous token = some ⟨t, f.kind c⟩ := by
  rw [classify, seen_iff.1 seen, if_neg Bool.false_ne_true, decideOn_final final told]

theorem classify_unseen {table : GroupTable} (unseen : ¬Seen table token) :
    classify f table previous token = none := by
  rw [seen_iff, Bool.not_eq_false] at unseen
  rw [classify, if_pos unseen]

/-- The cursor a token is judged by is its own in the base language, and in the others the one that
at most two hops lead to; the table of the kinds has the tag for it, and its kind is kept for the
next token. Of the chain of references nothing is asked beyond its first three cursors. -/
theorem classify_chased (f : Frontend Cursor Ty) (table : GroupTable)
    (previous : Option CursorKind) (token : Token Cursor Ty) (seen : Seen table token) :
    (∃ c t, Final f table.language token.cursor c ∧ Tells f table.language previous token c t) ∧
    (∀ c t, Final f table.language token.cursor c → Tells f table.language previous token c t →
      classify f table previous token = some ⟨t, f.kind c⟩ ∧
      ∀ tokens, trace f table previous (token :: tokens) =
        (some ⟨t, f.kind c⟩, some (f.kind c)) :: trace f table (some (f.kind c)) tokens) ∧
    ∀ g, Alike f g 2 token.cursor → (∀ t, token.type? = some t → TypedAlike f g t) →
      classify g table previous token = classify f table previous token := by
  refine ⟨?_, ?_, ?_⟩
  · obtain ⟨c, final⟩ := final_some f table.language token.cursor
    obtain ⟨t, told⟩ := tells_some f table.language previous token c
    exact ⟨c, t, final, told⟩
  · intro c t final told
    have found := classify_seen seen final told
    exact ⟨found, fun tokens => by rw [trace, found]; rfl⟩
  · intro g alike typed
    obtain ⟨c, final⟩ := final_some f table.language token.cursor
    obtain ⟨t, told⟩ := tells_some f table.language previous token c
    obtain ⟨final', left, same⟩ := alike.final final
    rw [classify_seen seen final told, classify_seen seen final' (same.tells typed told), same.kind]

def circle : Frontend Nat Nat :=
  .ofTables #[⟨.typeRef, "a", "a", some 1⟩, ⟨.typeRef, "b", "b", some 2⟩,
    ⟨.typeRef, "c", "c", some 0⟩] #[]

def ladder : Frontend Nat Nat :=
  .ofTables #[⟨.typeRef, "a", "a", some 1⟩, ⟨.typeRef, "b", "b", some 2⟩,
    ⟨.typeRef, "c", "c", some 3⟩, ⟨.structDecl, "d", "d", none⟩] #[]

def circleTable : GroupTable :=
  .build .cpp "st" [(.structs, "Struct"), (.types, "Type")] (.ofList ["main"])

def circleToken : Token Nat Nat :=
  { cursor := 0, type? := none, kind := .identifier, text := "a", line? := some 3, start := 0,
    stop := 1 }

theorem circle_chased :
    Seen circleTable circleToken ∧ Final circle .cpp 0 2 ∧
    classify circle circleTable none circleToken = some ⟨some .types, .typeRef⟩ ∧
    Alike circle ladder 2 0 ∧ circle.referenced 2 ≠ ladder.referenced 2 ∧
    classify ladder circleTable none circleToken = some ⟨some .types, .typeRef⟩ := by
  have seen : Seen circleTable circleToken := ⟨rfl, by decide +kernel⟩
  have final : Final circle .cpp 0 2 :=
    .led (by decide) (.hop ⟨rfl, rfl, by decide, by decide⟩
      (.hop ⟨rfl, rfl, by decide, by decide⟩ (.spent 2)))
  have told : Tells circle .cpp none circleToken 2 (some .types) := .certain rfl
  have alike : Alike circle ladder 2 0 := by
    refine .on rfl rfl rfl fun d first => ?_
    cases first
    refine .on rfl rfl rfl fun d second => ?_
    cases second
    exact .here rfl rfl
  obtain ⟨-, judged, asked⟩ := classify_chased circle circleTable none circleToken seen
  have found := (judged 2 (some .types) final told).1
  exact ⟨seen, final, found, alike, by decide,
    (asked ladder alike fun t typed => by cases typed).trans found⟩

end SemanticHighlight.Classify
