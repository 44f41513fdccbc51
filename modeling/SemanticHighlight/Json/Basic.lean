import SemanticHighlight.Text.Decimal

/-!
# JSON values

A value as a text spells it: members in the order they are written, repeated keys included. A
string whose escapes do not spell Unicode text, because half of a surrogate pair stands alone, is
`none`. Integer literals are numbers; a literal with a fraction or an exponent, and negative zero,
stay literals.
-/

set_option autoImplicit false

namespace SemanticHighlight

inductive Json where
  | null
  | bool (value : Bool)
  | int (value : Int)
  | real (literal : String)
  | str (text : Option String)
  | arr (items : List Json)
  | obj (members : List (Option String × Json))

namespace Json

inductive Token where
  | openArr
  | closeArr
  | openObj
  | closeObj
  | comma
  | colon
  | null
  | bool (value : Bool)
  | int (value : Int)
  | real (literal : String)
  | text (text : Option String)
  deriving DecidableEq

def ofText (s : String) : Json := .str (some s)

mutual

def tokens : Json → List Token
  | .null => [.null]
  | .bool b => [.bool b]
  | .int n => [.int n]
  | .real l => [.real l]
  | .str s => [.text s]
  | .arr items => .openArr :: itemTokens items ++ [.closeArr]
  | .obj members => .openObj :: memberTokens members ++ [.closeObj]

def itemTokens : List Json → List Token
  | [] => []
  | v :: vs => tokens v ++ moreTokens vs

def moreTokens : List Json → List Token
  | [] => []
  | v :: vs => .comma :: tokens v ++ moreTokens vs

def memberTokens : List (Option String × Json) → List Token
  | [] => []
  | (k, v) :: ms => .text k :: .colon :: tokens v ++ moreMemberTokens ms

def moreMemberTokens : List (Option String × Json) → List Token
  | [] => []
  | (k, v) :: ms => .comma :: .text k :: .colon :: tokens v ++ moreMemberTokens ms

end

end Json

end SemanticHighlight
