import Mathlib.Data.List.Induction
import SemanticHighlight.Command.Arguments

/-!
# Items of a command line

Arguments come in items: an option with its value, or a file by itself. The first argument of an
item tells which it is, and the value of an option is not looked at, so arguments can be cut into
items in one way at most. They are accepted if they can be cut, and the items give a file type and
name one file. What they say is the file and the last value of each option, so it does not matter
how the items of different options stand among each other.
-/

set_option autoImplicit false

namespace SemanticHighlight.Command

def Flag.spellings : Flag → List String
  | .filetype => ["--filetype", "-f"]
  | .settings => ["--settings"]
  | .worker => ["--worker"]
  | .root => ["--root"]

structure Plain (text : String) : Prop where
  unnamed : ∀ flag : Flag, text ∉ flag.spellings
  undashed : ¬['-', '-'] <+: text.toList

inductive Item where
  | option (flag : Flag) (spelling value : String) (spelled : spelling ∈ flag.spellings)
  | file (path : String) (plain : Plain path)

namespace Item

def words : Item → List String
  | .option _ spelling value _ => [spelling, value]
  | .file path _ => [path]

def flag? : Item → Option Flag
  | .option flag .. => some flag
  | .file .. => none

def value? : Item → Option String
  | .option _ _ value _ => some value
  | .file .. => none

def path? : Item → Option String
  | .option .. => none
  | .file path _ => some path

end Item

def spelledOut (items : List Item) : List String := items.flatMap Item.words

def itemsOf (flag : Flag) (items : List Item) : List Item := items.filter (·.flag? = some flag)

def valuesOf (flag : Flag) (items : List Item) : List String :=
  (itemsOf flag items).filterMap Item.value?

def filesOf (items : List Item) : List String := items.filterMap Item.path?

/-- What items come to: their one file, and the last value of each option. -/
structure Says (items : List Item) (a : Arguments) : Prop where
  file : filesOf items = [a.file]
  filetype : (valuesOf .filetype items).getLast? = some a.filetype
  settings : (valuesOf .settings items).getLast? = a.settings?
  worker : (valuesOf .worker items).getLast? = a.worker?
  root : (valuesOf .root items).getLast? = a.root?

@[simp] theorem filesOf_option {flag : Flag} {spelling value : String}
    (spelled : spelling ∈ flag.spellings) (items : List Item) :
    filesOf (.option flag spelling value spelled :: items) = filesOf items := rfl

@[simp] theorem filesOf_file {path : String} (plain : Plain path) (items : List Item) :
    filesOf (.file path plain :: items) = path :: filesOf items := rfl

@[simp] theorem valuesOf_option (flag other : Flag) {spelling value : String}
    (spelled : spelling ∈ other.spellings) (items : List Item) :
    valuesOf flag (.option other spelling value spelled :: items) =
      if other = flag then value :: valuesOf flag items else valuesOf flag items := by
  by_cases same : other = flag <;> simp [valuesOf, itemsOf, Item.flag?, Item.value?, same]

@[simp] theorem valuesOf_file (flag : Flag) {path : String} (plain : Plain path)
    (items : List Item) :
    valuesOf flag (.file path plain :: items) = valuesOf flag items := rfl

theorem Flag.ofText?_eq_some_iff {text : String} {flag : Flag} :
    ofText? text = some flag ↔ text ∈ flag.spellings := by
  -- no text is a spelling of two options
  cases flag <;> simp only [ofText?, spellings, List.mem_cons, List.not_mem_nil] <;> grind

theorem Flag.ofText?_eq_none_iff {text : String} :
    ofText? text = none ↔ ∀ flag : Flag, text ∉ flag.spellings := by
  simp only [Option.eq_none_iff_forall_ne_some, ne_eq, ofText?_eq_some_iff]

theorem Given.looksLikeOption_iff {text : String} :
    looksLikeOption text = true ↔ ['-', '-'] <+: text.toList :=
  List.isPrefixOf_iff_prefix

theorem plain_iff {text : String} :
    Plain text ↔ Flag.ofText? text = none ∧ Given.looksLikeOption text = false := by
  rw [Flag.ofText?_eq_none_iff, Bool.eq_false_iff, ne_eq, Given.looksLikeOption_iff]
  exact ⟨fun h => ⟨h.unnamed, h.undashed⟩, fun h => ⟨h.1, h.2⟩⟩

instance (text : String) : Decidable (Plain text) := decidable_of_iff _ plain_iff.symm

namespace Given

def value? (g : Given) : Flag → Option String
  | .filetype => g.filetype?
  | .settings => g.settings?
  | .worker => g.worker?
  | .root => g.root?

def add (g : Given) : Item → Given
  | .option flag _ value _ => g.set flag value
  | .file path _ => { g with file? := some path }

@[simp] theorem value?_set (g : Given) (flag other : Flag) (value : String) :
    (g.set flag value).value? other = if other = flag then some value else g.value? other := by
  cases flag <;> cases other <;> rfl

@[simp] theorem file?_set (g : Given) (flag : Flag) (value : String) :
    (g.set flag value).file? = g.file? := by
  cases flag <;> rfl

theorem read_option (g : Given) {flag : Flag} {spelling : String}
    (spelled : spelling ∈ flag.spellings) (value : String) (rest : List String) :
    g.read (spelling :: value :: rest) = (g.set flag value).read rest := by
  rw [read, Flag.ofText?_eq_some_iff.mpr spelled]

theorem read_file (g : Given) {path : String} (plain : Plain path) (rest : List String) :
    g.read (path :: rest) =
      if g.file?.isSome then .error (.unexpectedArgument path)
      else { g with file? := some path }.read rest := by
  obtain ⟨unnamed, undashed⟩ := plain_iff.mp plain
  rw [read.eq_def]
  simp [unnamed, undashed]

/-- There is room for the files that are named, as only one can be given. -/
def Room (g : Given) (items : List Item) : Prop := (g.file?.toList ++ filesOf items).length ≤ 1

theorem room_nil (g : Given) : g.Room [] := by
  cases h : g.file? <;> simp [Room, filesOf, h]

theorem room_option {g : Given} {flag : Flag} {spelling value : String}
    {spelled : spelling ∈ flag.spellings} {items : List Item} :
    g.Room (.option flag spelling value spelled :: items) ↔ (g.set flag value).Room items := by
  rw [Room, Room, filesOf_option, file?_set]

theorem room_file {g : Given} {path : String} {plain : Plain path} {items : List Item} :
    g.Room (.file path plain :: items) ↔
      g.file? = none ∧ ({ g with file? := some path } : Given).Room items := by
  rw [Room, Room, filesOf_file]
  cases h : g.file? <;> simp

theorem read_spelledOut {g : Given} {items : List Item} (room : g.Room items) :
    g.read (spelledOut items) = .ok (items.foldl add g) := by
  induction items generalizing g with
  | nil => rfl
  | cons item items ih =>
    cases item with
    | option flag spelling value spelled =>
      exact (g.read_option spelled value _).trans (ih (room_option.mp room))
    | file path plain =>
      obtain ⟨first, room⟩ := room_file.mp room
      refine (g.read_file plain _).trans ?_
      rw [first]
      exact ih room

theorem items_of_read {g g' : Given} {arguments : List String} (h : g.read arguments = .ok g') :
    ∃ items, spelledOut items = arguments ∧ g.Room items := by
  fun_induction read g arguments with
  | case1 g => exact ⟨[], rfl, g.room_nil⟩
  | case2 g argument flag named => cases h
  | case3 g argument flag named value rest ih =>
    obtain ⟨items, rfl, room⟩ := ih h
    have spelled := Flag.ofText?_eq_some_iff.mp named
    exact ⟨.option flag argument value spelled :: items, rfl, room_option.mpr room⟩
  | case4 g argument rest unnamed dashed => cases h
  | case5 g argument rest unnamed undashed second => cases h
  | case6 g argument rest unnamed undashed first ih =>
    obtain ⟨items, rfl, room⟩ := ih h
    have plain : Plain argument := plain_iff.mpr ⟨unnamed, by simpa using undashed⟩
    have first : g.file? = none := by simpa using first
    exact ⟨.file argument plain :: items, rfl, room_file.mpr ⟨first, room⟩⟩

theorem file?_foldl_add (g : Given) (items : List Item) :
    (items.foldl add g).file? = (filesOf items).getLast?.or g.file? := by
  induction items generalizing g with
  | nil => rfl
  | cons item items ih =>
    rw [List.foldl_cons, ih]
    cases item with
    | option flag spelling value spelled => simp [add]
    | file path plain => cases h : (filesOf items).getLast? <;> simp [add, List.getLast?_cons, h]

theorem value?_foldl_add (g : Given) (items : List Item) (flag : Flag) :
    (items.foldl add g).value? flag = (valuesOf flag items).getLast?.or (g.value? flag) := by
  induction items generalizing g with
  | nil => rfl
  | cons item items ih =>
    rw [List.foldl_cons, ih]
    cases item with
    | option other spelling value spelled =>
      by_cases same : other = flag
      · cases h : (valuesOf flag items).getLast? <;> simp [add, same, List.getLast?_cons, h]
      · simp [add, same, Ne.symm same]
    | file path plain => cases flag <;> rfl

theorem complete_eq_ok_iff {g : Given} {a : Arguments} :
    g.complete = .ok a ↔ g.file? = some a.file ∧ g.filetype? = some a.filetype ∧
      g.settings? = a.settings? ∧ g.worker? = a.worker? ∧ g.root? = a.root? := by
  obtain ⟨filetype?, settings?, worker?, root?, file?⟩ := g
  obtain ⟨filetype, settings, worker, root, file⟩ := a
  cases filetype? with
  | none => simp [complete]
  | some filetype' =>
    cases file? with
    | none => simp [complete]
    | some file' =>
      simp only [complete, Except.ok.injEq, Arguments.mk.injEq, Option.some.injEq]
      tauto

end Given

theorem Item.words_append {item item' : Item} {rest rest' : List String}
    (h : item.words ++ rest = item'.words ++ rest') : item = item' ∧ rest = rest' := by
  cases item with
  | option flag spelling value spelled =>
    cases item' with
    | option flag' spelling' value' spelled' =>
      obtain ⟨rfl, rfl, rfl⟩ : spelling = spelling' ∧ value = value' ∧ rest = rest' := by
        simpa [words] using h
      have same := Flag.ofText?_eq_some_iff.mpr spelled
      rw [Flag.ofText?_eq_some_iff.mpr spelled'] at same
      cases same
      exact ⟨rfl, rfl⟩
    | file path' plain' => exact absurd ((List.cons.inj h).1 ▸ spelled) (plain'.unnamed flag)
  | file path plain =>
    cases item' with
    | option flag' spelling' value' spelled' =>
      exact absurd ((List.cons.inj h).1 ▸ spelled') (plain.unnamed flag')
    | file path' plain' =>
      obtain ⟨rfl, rfl⟩ := List.cons.inj h
      exact ⟨rfl, rfl⟩

theorem spelledOut_injective {items items' : List Item} (h : spelledOut items = spelledOut items') :
    items = items' := by
  induction items generalizing items' with
  | nil =>
    cases items' with
    | nil => rfl
    | cons item' items' => cases item' <;> cases h
  | cons item items ih =>
    cases items' with
    | nil => cases item <;> cases h
    | cons item' items' =>
      rw [spelledOut, spelledOut, List.flatMap_cons, List.flatMap_cons] at h
      obtain ⟨rfl, rest⟩ := Item.words_append h
      rw [ih rest]

theorem read_eq_ok_iff {arguments : List String} {a : Arguments} :
    Arguments.read arguments = .ok a ↔
      ∃ g, ({} : Given).read arguments = .ok g ∧ g.complete = .ok a := by
  rw [Arguments.read]
  cases ({} : Given).read arguments <;> simp

theorem complete_foldl_add_iff {items : List Item} {a : Arguments}
    (room : ({} : Given).Room items) :
    (items.foldl Given.add {}).complete = .ok a ↔ Says items a := by
  have file := Given.file?_foldl_add {} items
  have value := Given.value?_foldl_add {} items
  have single : (filesOf items).getLast? = some a.file ↔ filesOf items = [a.file] := by
    have few : (filesOf items).length ≤ 1 := by simpa [Given.Room] using room
    match filesOf items, few with
    | [], _ => simp
    | [path], _ => simp
  rw [Given.complete_eq_ok_iff, file, Option.or_none, single]
  have filetype := value .filetype
  have settings := value .settings
  have worker := value .worker
  have root := value .root
  simp only [Given.value?, Option.or_none] at filetype settings worker root
  rw [filetype, settings, worker, root]
  exact ⟨fun ⟨f, t, s, w, r⟩ => ⟨f, t, s, w, r⟩, fun ⟨f, t, s, w, r⟩ => ⟨f, t, s, w, r⟩⟩

theorem read_spelledOut_iff {items : List Item} {a : Arguments} :
    Arguments.read (spelledOut items) = .ok a ↔ Says items a := by
  rw [read_eq_ok_iff]
  constructor
  · rintro ⟨g, read, complete⟩
    obtain ⟨items', same, room⟩ := Given.items_of_read read
    rw [← same, Given.read_spelledOut room] at read
    obtain rfl := spelledOut_injective same
    cases read
    exact (complete_foldl_add_iff room).mp complete
  · intro said
    have room : ({} : Given).Room items := by simp [Given.Room, said.file]
    exact ⟨_, Given.read_spelledOut room, (complete_foldl_add_iff room).mpr said⟩

theorem items_of_accepted {arguments : List String} {a : Arguments}
    (h : Arguments.read arguments = .ok a) : ∃ items, spelledOut items = arguments := by
  obtain ⟨g, read, -⟩ := read_eq_ok_iff.mp h
  obtain ⟨items, spelled, -⟩ := Given.items_of_read read
  exact ⟨items, spelled⟩

theorem valuesOf_eq_nil_iff {flag : Flag} {items : List Item} :
    valuesOf flag items = [] ↔ ∀ item ∈ items, item.flag? ≠ some flag := by
  induction items with
  | nil => simp [valuesOf, itemsOf]
  | cons item items ih =>
    rw [List.forall_mem_cons, ← ih]
    cases item with
    | option other spelling value spelled =>
      by_cases same : other = flag <;> simp [Item.flag?, same]
    | file path plain => simp [Item.flag?]

theorem exists_says_iff {items : List Item} :
    (∃ a, Says items a) ↔
      (∃ item ∈ items, item.flag? = some .filetype) ∧ ∃ path, filesOf items = [path] := by
  have given : (∃ item ∈ items, item.flag? = some .filetype) ↔ valuesOf .filetype items ≠ [] := by
    rw [ne_eq, valuesOf_eq_nil_iff]
    simp
  rw [given]
  constructor
  · rintro ⟨a, said⟩
    refine ⟨fun none => ?_, a.file, said.file⟩
    have last := said.filetype
    rw [none] at last
    cases last
  · rintro ⟨some, path, file⟩
    exact ⟨⟨(valuesOf .filetype items).getLast some, _, _, _, path⟩,
      file, List.getLast?_eq_some_getLast some, rfl, rfl, rfl⟩

theorem Says.rearranged {items items' : List Item} {a : Arguments} (said : Says items a)
    (same : items.Perm items') (order : ∀ flag, itemsOf flag items = itemsOf flag items') :
    Says items' a := by
  have values (flag : Flag) : valuesOf flag items' = valuesOf flag items := by
    rw [valuesOf, valuesOf, order]
  have files : filesOf items' = [a.file] :=
    List.perm_singleton.mp ((same.filterMap Item.path?).symm.trans (.of_eq said.file))
  exact ⟨files, by rw [values, said.filetype], by rw [values, said.settings],
    by rw [values, said.worker], by rw [values, said.root]⟩

/-- Arguments are accepted exactly if they can be cut into items that give a file type and name one
file, which is possible in one way only. What is read is that file and the last value of each
option, so items of different options can change places. -/
theorem accepted_by_items :
    (∀ items items', spelledOut items = spelledOut items' → items = items') ∧
    (∀ arguments, (∃ a, Arguments.read arguments = .ok a) ↔
      ∃ items, spelledOut items = arguments ∧
        (∃ item ∈ items, item.flag? = some .filetype) ∧ ∃ path, filesOf items = [path]) ∧
    (∀ items a, Arguments.read (spelledOut items) = .ok a ↔ Says items a) ∧
    (∀ items items' a, items.Perm items' →
      (∀ flag, itemsOf flag items = itemsOf flag items') →
      Arguments.read (spelledOut items) = .ok a → Arguments.read (spelledOut items') = .ok a) := by
  refine ⟨fun _ _ => spelledOut_injective, fun arguments => ⟨?_, ?_⟩,
    fun _ _ => read_spelledOut_iff, fun items items' a same order read => ?_⟩
  · rintro ⟨a, read⟩
    obtain ⟨items, rfl⟩ := items_of_accepted read
    exact ⟨items, rfl, exists_says_iff.mp ⟨a, read_spelledOut_iff.mp read⟩⟩
  · rintro ⟨items, rfl, complete⟩
    obtain ⟨a, said⟩ := exists_says_iff.mpr complete
    exact ⟨a, read_spelledOut_iff.mpr said⟩
  · exact read_spelledOut_iff.mpr ((read_spelledOut_iff.mp read).rearranged same order)

/-- An option given twice, in both spellings, and a value that looks like an option. -/
def mixedItems : List Item := [
  .option .filetype "-f" "c" (by decide),
  .option .root "--root" "--worker" (by decide),
  .file "-x" (by decide),
  .option .filetype "--filetype" "go" (by decide)]

def mixedItemsMoved : List Item := [
  .file "-x" (by decide),
  .option .filetype "-f" "c" (by decide),
  .option .filetype "--filetype" "go" (by decide),
  .option .root "--root" "--worker" (by decide)]

theorem mixedItems_accepted :
    mixedItems.Perm mixedItemsMoved ∧
    (∀ flag, itemsOf flag mixedItems = itemsOf flag mixedItemsMoved) ∧
    spelledOut mixedItems = ["-f", "c", "--root", "--worker", "-x", "--filetype", "go"] ∧
    spelledOut mixedItemsMoved = ["-x", "-f", "c", "--filetype", "go", "--root", "--worker"] ∧
    Arguments.read (spelledOut mixedItems) = .ok ⟨"go", none, none, some "--worker", "-x"⟩ ∧
    Arguments.read (spelledOut mixedItemsMoved) =
      .ok ⟨"go", none, none, some "--worker", "-x"⟩ := by
  have same : mixedItems.Perm mixedItemsMoved := by
    refine .trans (.cons _ (.swap _ _ _)) (.trans (.swap _ _ _) (.cons _ (.cons _ (.swap _ _ _))))
  have order (flag : Flag) : itemsOf flag mixedItems = itemsOf flag mixedItemsMoved := by
    cases flag <;> rfl
  have read : Arguments.read (spelledOut mixedItems) =
      .ok ⟨"go", none, none, some "--worker", "-x"⟩ := by decide +kernel
  exact ⟨same, order, rfl, rfl, read, accepted_by_items.2.2.2 _ _ _ same order read⟩

end SemanticHighlight.Command
