import SemanticHighlight.Highlight.Tag
import SemanticHighlight.Highlight.IgnoreList
import SemanticHighlight.Keyed

/-!
# Group tables

Which highlight group a tag gets in one language profile. A tag has a group only if the profile
lists it as active and names a group for it.
-/

set_option autoImplicit false

namespace SemanticHighlight

structure GroupTable where
  language : Language
  active : List Tag
  groups : Keyed Tag String
  ignored : IgnoreList

namespace GroupTable

def firstOccurrences (tags : List Tag) : List Tag :=
  tags.foldl (fun seen t => if t ∈ seen then seen else seen ++ [t]) []

/-- `order` spells the active tags; of several pairs for a tag the last counts. -/
def build (language : Language) (order : String) (groups : List (Tag × String))
    (ignored : IgnoreList) : GroupTable where
  language := language
  active := firstOccurrences (order.toList.map Tag.mk)
  groups := Keyed.ofList groups
  ignored := ignored

def isActive (t : GroupTable) (tag : Tag) : Bool := tag ∈ t.active

def group? (t : GroupTable) (tag : Tag) : Option String :=
  if t.isActive tag then t.groups.get? tag else none

def isIgnored (t : GroupTable) (word : String) : Bool := t.ignored.contains word

end GroupTable

end SemanticHighlight
