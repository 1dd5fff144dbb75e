import Mathlib.Data.List.Basic

/-!
Comparison without regard to case, of texts as bytes.
-/

namespace EBeacon.Text

-- the lower-case form of what folds to ASCII; the Kelvin sign and the long s do
def foldCase : List Char → List Char
  | [] => []
  | '\xe2' :: '\x84' :: '\xaa' :: rest => 'k' :: foldCase rest
  | '\xc5' :: '\xbf' :: rest => 's' :: foldCase rest
  | c :: rest => c.toLower :: foldCase rest

def equalFold (s lower : String) : Bool := foldCase s.toList = lower.toList

def hasPrefixFold (s lower : String) : Bool := lower.toList.isPrefixOf (foldCase s.toList)

example : equalFold "HEAD_v2" "head_v2" = true := by decide

end EBeacon.Text
