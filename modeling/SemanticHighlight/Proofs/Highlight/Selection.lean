import SemanticHighlight.Highlight.GroupTable

/-!
# Selected elements

Highlights are selected from a list, of tokens or of lines, and keep its order: an element gives one
highlight or none. Whether it gives one is asked of a table. The words that it ignores are found by
a binary search, which finds exactly the words of the list, and a group is found exactly for an
active tag that has one.
-/

set_option autoImplicit false

namespace SemanticHighlight

/-- The results of the elements that give one, in the order of the elements. -/
inductive Selected {α β : Type} (gives : α → β → Prop) : List α → List β → Prop
  | nil : Selected gives [] []
  | kept {a : α} {b : β} {as : List α} {bs : List β} (given : gives a b)
    (rest : Selected gives as bs) : Selected gives (a :: as) (b :: bs)
  | passed {a : α} {as : List α} {bs : List β} (none : ∀ b, ¬gives a b)
    (rest : Selected gives as bs) : Selected gives (a :: as) bs

theorem selected_iff {α β : Type} {gives : α → β → Prop} {g : α → Option β}
    (decides : ∀ a b, g a = some b ↔ gives a b) {as : List α} {bs : List β} :
    Selected gives as bs ↔ bs = as.filterMap g := by
  constructor
  · intro selected
    induction selected with
    | nil => rfl
    | kept given rest ih => rw [List.filterMap_cons_some ((decides _ _).2 given), ih]
    | @passed a as bs none rest ih =>
      have left : g a = .none := by
        rw [Option.eq_none_iff_forall_ne_some]
        exact fun b found => none b ((decides a b).1 found)
      rw [List.filterMap_cons_none left, ih]
  · rintro rfl
    induction as with
    | nil => exact .nil
    | cons a as ih =>
      cases found : g a with
      | none =>
        rw [List.filterMap_cons_none found]
        exact .passed (fun b given => by simp [(decides a b).2 given] at found) ih
      | some b =>
        rw [List.filterMap_cons_some found]
        exact .kept ((decides a b).1 found) ih

namespace IgnoreList

theorem position_lt_iff {words : Array String} (ascending : words.toList.Pairwise (· < ·))
    {i j : Nat} {x y : String} (hx : words[i]? = some x) (hy : words[j]? = some y) :
    i < j ↔ x < y := by
  obtain ⟨hi, rfl⟩ := Array.getElem?_eq_some_iff.1 hx
  obtain ⟨hj, rfl⟩ := Array.getElem?_eq_some_iff.1 hy
  have order := List.pairwise_iff_getElem.1 ascending
  constructor
  · exact order i j hi hj
  · intro less
    rcases Nat.lt_trichotomy i j with before | rfl | after
    · exact before
    · exact absurd less (String.lt_irrefl _)
    · exact absurd (order j i hj hi after) (String.lt_asymm less)

theorem search_iff {words : Array String} (ascending : words.toList.Pairwise (· < ·)) {w : String}
    {lo hi : Nat} (bounded : hi ≤ words.size) :
    search words w lo hi = true ↔ ∃ i, lo ≤ i ∧ i < hi ∧ words[i]? = some w := by
  -- the half that is given up stands on the far side of the word in the middle
  fun_induction search words w lo hi with
  | case1 lo hi nonempty mid outside =>
    rw [Array.getElem?_eq_none_iff] at outside
    omega
  | case2 lo hi nonempty mid found =>
    exact ⟨fun _ => ⟨mid, by omega, by omega, found⟩, fun _ => rfl⟩
  | case3 lo hi nonempty mid x found other below ih =>
    refine (ih bounded).trans ⟨?_, ?_⟩
    · rintro ⟨i, low, high, stands⟩
      exact ⟨i, by omega, high, stands⟩
    · rintro ⟨i, low, high, stands⟩
      have after := (position_lt_iff ascending found stands).2 below
      exact ⟨i, after, high, stands⟩
  | case4 lo hi nonempty mid x found other above ih =>
    refine (ih (by omega)).trans ⟨?_, ?_⟩
    · rintro ⟨i, low, high, stands⟩
      exact ⟨i, low, by omega, stands⟩
    · rintro ⟨i, low, high, stands⟩
      have before : ¬mid < i := fun after => above ((position_lt_iff ascending found stands).1 after)
      have apart : i ≠ mid := fun same => other (Option.some.inj (found.symm.trans (same ▸ stands)))
      exact ⟨i, low, by omega, stands⟩
  | case5 lo hi empty =>
    constructor
    · intro found
      cases found
    · rintro ⟨i, low, high, -⟩
      omega

theorem contains_iff (l : IgnoreList) (w : String) : l.contains w = true ↔ w ∈ l.words := by
  rw [contains, search_iff l.ascending (Nat.le_refl _), Array.mem_iff_getElem?]
  constructor
  · rintro ⟨i, -, -, stands⟩
    exact ⟨i, stands⟩
  · rintro ⟨i, stands⟩
    exact ⟨i, Nat.zero_le i, (Array.getElem?_eq_some_iff.1 stands).1, stands⟩

end IgnoreList

namespace GroupTable

theorem isIgnored_iff (t : GroupTable) (word : String) :
    t.isIgnored word = true ↔ word ∈ t.ignored.words :=
  t.ignored.contains_iff word

theorem group?_eq_some_iff {t : GroupTable} {tag : Tag} {group : String} :
    t.group? tag = some group ↔ tag ∈ t.active ∧ t.groups.get? tag = some group := by
  simp [group?, isActive]

end GroupTable

end SemanticHighlight
