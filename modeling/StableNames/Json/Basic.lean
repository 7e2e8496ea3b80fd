-- JSON values. Numbers keep the text they were written as, and objects
-- keep all their members in order, repeated ones too. A string whose
-- escapes leave half of a pair of surrogates is no text; it has no value.

namespace StableNames

inductive Json where
  | null
  | bool (b : Bool)
  | number (literal : List Char)
  | string (value? : Option String)
  | array (items : List Json)
  | object (members : List (Option String × Json))
deriving Repr, Inhabited

end StableNames
