/-!
# Words

The identifiers of a line: an ASCII letter or underscore and all the ASCII letters, digits and
underscores after it. A word keeps the byte column it begins at, the character before it and the
text after it.
-/

set_option autoImplicit false

namespace SemanticHighlight.Tokenizer

def startsWord (c : Char) : Bool := c.isAlpha || c = '_'

def continuesWord (c : Char) : Bool := c.isAlphanum || c = '_'

structure Word where
  column : Nat
  text : List Char
  before? : Option Char
  rest : List Char
  deriving DecidableEq, Repr

namespace Word

/-- The column after the word; every character of a word is one byte long. -/
def stop (w : Word) : Nat := w.column + w.text.length

end Word

theorem length_dropWhile_le {α : Type} (p : α → Bool) (cs : List α) :
    (cs.dropWhile p).length ≤ cs.length :=
  (List.dropWhile_sublist p).length_le

def wordsFrom (column : Nat) (before? : Option Char) : List Char → List Word
  | [] => []
  | c :: cs =>
    if startsWord c then
      let text := c :: cs.takeWhile continuesWord
      let rest := cs.dropWhile continuesWord
      ⟨column, text, before?, rest⟩ :: wordsFrom (column + text.length) text.getLast? rest
    else wordsFrom (column + c.utf8Size) (some c) cs
termination_by cs => cs.length
decreasing_by
  · exact Nat.lt_succ_of_le (length_dropWhile_le _ _)
  · simp

def words (line : List Char) : List Word := wordsFrom 0 none line

end SemanticHighlight.Tokenizer
