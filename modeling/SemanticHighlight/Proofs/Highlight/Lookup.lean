import Mathlib.Data.Finset.Card
import Mathlib.Data.List.Induction
import SemanticHighlight.Proofs.Highlight.Selection
import SemanticHighlight.Proofs.Settings.Dictionary

/-!
# What tables find

A list of ignored words holds the words it was made from, whatever their order and however often
they were given. A group table finds the group of the last pair of a tag, if the tag is spelled by
the order of its profile. In a profile each key of one letter is the tag of that letter, and other
keys are no tags.
-/

set_option autoImplicit false

namespace SemanticHighlight

namespace IgnoreList

@[simp] theorem mem_words_ofList {ws : List String} {w : String} :
    w ∈ (ofList ws).words ↔ w ∈ ws := by
  simp [ofList, mem_dropRepeats, sorted]

theorem words_distinct (l : IgnoreList) : l.words.toList.Nodup :=
  l.ascending.imp String.ne_of_lt

theorem eq_of_mem_iff {l l' : IgnoreList} (h : ∀ w, w ∈ l.words ↔ w ∈ l'.words) : l = l' := by
  have same : l.words.toList.Perm l'.words.toList :=
    (List.perm_ext_iff_of_nodup l.words_distinct l'.words_distinct).mpr
      fun w => by simpa using h w
  have antisymmetric (v w : String) (before : v < w) (after : w < v) : v = w :=
    absurd after (String.lt_asymm before)
  have words : l.words.toList = l'.words.toList :=
    same.eq_of_pairwise (fun v w _ _ => antisymmetric v w) l.ascending l'.ascending
  obtain ⟨⟨words⟩, ascending⟩ := l
  obtain ⟨⟨words'⟩, ascending'⟩ := l'
  cases words
  rfl

theorem size_ofList (ws : List String) : (ofList ws).size = ws.toFinset.card := by
  have same : (ofList ws).words.toList.toFinset = ws.toFinset := by
    ext w
    simp
  rw [← same, List.toFinset_card_of_nodup (words_distinct _), size, Array.length_toList]

/-- A list of ignored words is the set of the words it was made from. -/
theorem ignores_exactly (ws : List String) :
    (∀ w, (ofList ws).contains w = true ↔ w ∈ ws) ∧
    (ofList ws).size = ws.toFinset.card ∧
    ∀ ws', (∀ w, w ∈ ws' ↔ w ∈ ws) → ofList ws' = ofList ws := by
  refine ⟨fun w => (contains_iff _ w).trans mem_words_ofList, size_ofList ws, fun ws' same => ?_⟩
  refine eq_of_mem_iff fun w => ?_
  rw [mem_words_ofList, mem_words_ofList, same]

theorem repeated_words_ignored :
    (∀ w, w ∈ ["é", "", "true", "", "NULL"] ↔ w ∈ ["true", "NULL", "é", "NULL", ""]) ∧
    ofList ["é", "", "true", "", "NULL"] = ofList ["true", "NULL", "é", "NULL", ""] ∧
    (ofList ["true", "NULL", "é", "NULL", ""]).size = 4 := by
  have same (w : String) :
      w ∈ ["é", "", "true", "", "NULL"] ↔ w ∈ ["true", "NULL", "é", "NULL", ""] := by
    simp only [List.mem_cons, List.not_mem_nil]
    tauto
  obtain ⟨-, size, alike⟩ := ignores_exactly ["true", "NULL", "é", "NULL", ""]
  exact ⟨same, alike _ same, size.trans (by decide +kernel)⟩

end IgnoreList

def LastPaired {κ α : Type} (es : List (κ × α)) (k : κ) (v : α) : Prop :=
  ∃ before after, es = before ++ (k, v) :: after ∧ ∀ e ∈ after, e.1 ≠ k

namespace Keyed

variable {κ α : Type}

theorem lastPaired_concat {es : List (κ × α)} {e : κ × α} {k : κ} {v : α} :
    LastPaired (es ++ [e]) k v ↔ e = (k, v) ∨ e.1 ≠ k ∧ LastPaired es k v := by
  constructor
  · rintro ⟨before, after, cut, others⟩
    cases after using List.reverseRecOn with
    | nil =>
      obtain ⟨-, last⟩ := List.append_inj' cut rfl
      exact .inl (List.cons.inj last).1
    | append_singleton after last _ =>
      rw [← List.cons_append, ← List.append_assoc] at cut
      obtain ⟨rest, last⟩ := List.append_inj' cut rfl
      obtain rfl := (List.cons.inj last).1
      exact .inr ⟨others e (by simp), before, after, rest, fun e' he' => others e' (by simp [he'])⟩
  · rintro (rfl | ⟨other, before, after, rfl, others⟩)
    · exact ⟨es, [], rfl, by simp⟩
    · refine ⟨before, after ++ [e], by simp, ?_⟩
      simpa [or_imp, forall_and] using ⟨fun a b h => others (a, b) h, other⟩

theorem lastPaired_iff_mem {es : List (κ × α)} (distinct : (es.map Prod.fst).Nodup) {k : κ}
    {v : α} : LastPaired es k v ↔ (k, v) ∈ es := by
  constructor
  · rintro ⟨before, after, rfl, -⟩
    simp
  · intro mem
    obtain ⟨before, after, rfl⟩ := List.append_of_mem mem
    refine ⟨before, after, rfl, fun e he same => ?_⟩
    rw [List.map_append, List.map_cons, List.nodup_append] at distinct
    have absent := (List.nodup_cons.mp distinct.2.1).1
    exact absent (List.mem_map.mpr ⟨e, he, same⟩)

theorem get?_ofList_iff [DecidableEq κ] {es : List (κ × α)} {k : κ} {v : α} :
    (ofList es).get? k = some v ↔ LastPaired es k v := by
  induction es using List.reverseRecOn with
  | nil => simp [ofList, LastPaired]
  | append_singleton es e ih =>
    rw [lastPaired_concat, ← ih, ofList, List.foldl_append]
    obtain ⟨j, w⟩ := e
    by_cases same : j = k
    · simp [same]
    · simp [same, Ne.symm same, ofList]

end Keyed

/-- The tags that an order spells, each once, by the places where they first stand. -/
structure FirstSpelled (order : String) (tags : List Tag) : Prop where
  mem_iff : ∀ t, t ∈ tags ↔ t.letter ∈ order.toList
  ordered : tags.Pairwise fun t u => order.toList.idxOf t.letter < order.toList.idxOf u.letter

theorem FirstSpelled.eq {order : String} {tags tags' : List Tag} (h : FirstSpelled order tags)
    (h' : FirstSpelled order tags') : tags = tags' := by
  have distinct {tags : List Tag} (h : FirstSpelled order tags) : tags.Nodup :=
    h.ordered.imp fun before same => absurd before (by simp [same])
  have same : tags.Perm tags' := (List.perm_ext_iff_of_nodup (distinct h) (distinct h')).mpr
    fun t => (h.mem_iff t).trans (h'.mem_iff t).symm
  exact same.eq_of_pairwise (fun _ _ _ _ before after => by omega) h.ordered h'.ordered

namespace GroupTable

theorem firstOccurrences_concat (tags : List Tag) (t : Tag) :
    firstOccurrences (tags ++ [t]) =
      if t ∈ firstOccurrences tags then firstOccurrences tags
      else firstOccurrences tags ++ [t] := by
  rw [firstOccurrences, List.foldl_append]
  rfl

theorem firstSpelled_firstOccurrences (order : String) :
    FirstSpelled order (firstOccurrences (order.toList.map Tag.mk)) := by
  -- a letter that is spelled once more keeps its first place, a new one stands behind all others
  suffices spelled : ∀ cs : List Char,
      (∀ t : Tag, t ∈ firstOccurrences (cs.map Tag.mk) ↔ t.letter ∈ cs) ∧
      (firstOccurrences (cs.map Tag.mk)).Pairwise
        fun t u => cs.idxOf t.letter < cs.idxOf u.letter by
    exact ⟨(spelled order.toList).1, (spelled order.toList).2⟩
  intro cs
  induction cs using List.reverseRecOn with
  | nil => simp [firstOccurrences]
  | append_singleton cs c ih =>
    obtain ⟨mem, ordered⟩ := ih
    have kept : (firstOccurrences (cs.map Tag.mk)).Pairwise
        fun t u => (cs ++ [c]).idxOf t.letter < (cs ++ [c]).idxOf u.letter := by
      refine ordered.imp_of_mem fun {t u} ht hu before => ?_
      rwa [List.idxOf_append_of_mem ((mem t).mp ht), List.idxOf_append_of_mem ((mem u).mp hu)]
    rw [List.map_append, List.map_singleton, firstOccurrences_concat]
    by_cases old : Tag.mk c ∈ firstOccurrences (cs.map Tag.mk)
    · rw [if_pos old]
      have spelled : c ∈ cs := (mem _).mp old
      refine ⟨fun t => ?_, kept⟩
      rw [mem, List.mem_append, List.mem_singleton]
      exact ⟨.inl, fun h => h.elim id (· ▸ spelled)⟩
    · rw [if_neg old]
      have new : c ∉ cs := fun h => old ((mem _).mpr h)
      refine ⟨fun t => ?_, ?_⟩
      · rw [List.mem_append, mem, List.mem_append, List.mem_singleton, List.mem_singleton]
        exact or_congr_right ⟨congrArg Tag.letter, fun h => by cases t; cases h; rfl⟩
      · refine List.pairwise_append.mpr ⟨kept, List.pairwise_singleton _ _, fun t ht u hu => ?_⟩
        rw [List.mem_singleton] at hu
        subst hu
        have here := (mem t).mp ht
        rw [List.idxOf_append_of_mem here, List.idxOf_append_of_notMem new]
        exact Nat.lt_add_right _ (List.idxOf_lt_length_of_mem here)

theorem active_build_iff {language : Language} {order : String} {groups : List (Tag × String)}
    {ignored : IgnoreList} {tags : List Tag} :
    (build language order groups ignored).active = tags ↔ FirstSpelled order tags := by
  have spelled := firstSpelled_firstOccurrences order
  exact ⟨fun same => same ▸ spelled, fun other => spelled.eq other⟩

theorem group?_build_iff {language : Language} {order : String} {groups : List (Tag × String)}
    {ignored : IgnoreList} {tag : Tag} {group : String} :
    (build language order groups ignored).group? tag = some group ↔
      tag.letter ∈ order.toList ∧ LastPaired groups tag group := by
  rw [group?_eq_some_iff, (active_build_iff.mp rfl).mem_iff]
  exact and_congr_right fun _ => Keyed.get?_ofList_iff

end GroupTable

namespace Profile

theorem singleLetter?_eq_some_iff {key : String} {tag : Tag} :
    singleLetter? key = some tag ↔ key = String.singleton tag.letter := by
  obtain ⟨letter⟩ := tag
  rw [← String.toList_inj, String.toList_singleton, singleLetter?]
  split
  · rename_i c single
    simp [single]
  · rename_i many
    simpa using many letter

def tagged (p : Profile) : List (Tag × String) :=
  p.groups.entries.filterMap fun e => (singleLetter? e.1).map (·, e.2)

theorem mem_tagged_iff {p : Profile} {tag : Tag} {group : String} :
    (tag, group) ∈ p.tagged ↔ p.groups.get? (String.singleton tag.letter) = some group := by
  rw [Dictionary.get?, Dictionary.find?_eq_some_iff p.groups.keys_distinct, tagged,
    List.mem_filterMap]
  constructor
  · rintro ⟨⟨key, value⟩, entry, tagged⟩
    obtain ⟨t, single, pair⟩ := Option.map_eq_some_iff.mp tagged
    cases pair
    exact singleLetter?_eq_some_iff.mp single ▸ entry
  · intro entry
    exact ⟨_, entry, by simp [singleLetter?_eq_some_iff.mpr rfl]⟩

theorem tagged_distinct (p : Profile) : (p.tagged.map Prod.fst).Nodup := by
  have keys : p.tagged.map Prod.fst = (p.groups.entries.map Prod.fst).filterMap singleLetter? := by
    rw [tagged, List.map_filterMap, List.filterMap_map]
    congr 1
    funext e
    cases h : singleLetter? e.1 <;> simp [h]
  rw [keys]
  refine p.groups.keys_distinct.filterMap fun key key' tag single single' => ?_
  rw [singleLetter?_eq_some_iff.mp single, singleLetter?_eq_some_iff.mp single']

theorem group?_table (p : Profile) (tag : Tag) :
    p.table.group? tag =
      if tag.letter ∈ p.order.toList then p.groups.get? (String.singleton tag.letter)
      else none := by
  ext group
  have found : p.table.group? tag = some group ↔
      tag.letter ∈ p.order.toList ∧ LastPaired p.tagged tag group :=
    GroupTable.group?_build_iff
  rw [found, Keyed.lastPaired_iff_mem p.tagged_distinct, mem_tagged_iff]
  by_cases spelled : tag.letter ∈ p.order.toList <;> simp [spelled]

end Profile

/-- The active tags of a table are those its order spells, and each has the group of its last pair.
The table of a profile finds what stands under the one-letter key of a tag, whatever stands under
other keys. -/
theorem looks_up_exactly :
    (∀ language order groups ignored,
      (∀ tags, (GroupTable.build language order groups ignored).active = tags ↔
        FirstSpelled order tags) ∧
      ∀ tag group, (GroupTable.build language order groups ignored).group? tag = some group ↔
        tag.letter ∈ order.toList ∧ LastPaired groups tag group) ∧
    (∀ (p : Profile) (tag : Tag), p.table.group? tag =
      if tag.letter ∈ p.order.toList then p.groups.get? (String.singleton tag.letter)
      else none) ∧
    (∀ p p' : Profile, p.order = p'.order →
      (∀ c, p.groups.get? (String.singleton c) = p'.groups.get? (String.singleton c)) →
      ∀ tag, p.table.group? tag = p'.table.group? tag) := by
  refine ⟨fun language order groups ignored => ⟨fun _ => GroupTable.active_build_iff,
    fun _ _ => GroupTable.group?_build_iff⟩, Profile.group?_table, fun p p' order keys tag => ?_⟩
  rw [Profile.group?_table, Profile.group?_table, order, keys]

/-- Keys of no letter and of two beside the keys of two tags, one of which is not spelled. -/
def crowdedProfile : Profile where
  order := "éfé"
  groups := Dictionary.ofList [("", "None"), ("é", "Accent"), ("éf", "Both"), ("s", "Struct")]

def tidyProfile : Profile where
  order := "éfé"
  groups := Dictionary.ofList [("é", "Accent"), ("s", "Struct")]

theorem crowdedProfile_looked_up :
    (∀ c, crowdedProfile.groups.get? (String.singleton c) =
      tidyProfile.groups.get? (String.singleton c)) ∧
    (∀ tag, crowdedProfile.table.group? tag = tidyProfile.table.group? tag) ∧
    tidyProfile.table.active = [⟨'é'⟩, ⟨'f'⟩] ∧
    crowdedProfile.table.group? ⟨'é'⟩ = some "Accent" ∧
    crowdedProfile.table.group? ⟨'s'⟩ = none := by
  have keys (c : Char) : crowdedProfile.groups.get? (String.singleton c) =
      tidyProfile.groups.get? (String.singleton c) := by
    have some_letter : String.singleton c ≠ "" := by simp [← String.toList_inj]
    have one_letter : String.singleton c ≠ "éf" := by simp [← String.toList_inj]
    simp [crowdedProfile, tidyProfile, Dictionary.ofList, some_letter, one_letter]
  exact ⟨keys, looks_up_exactly.2.2 _ _ rfl keys, by decide +kernel, by decide +kernel,
    by decide +kernel⟩

end SemanticHighlight
