-- The three kinds of names that are handed out, and the form of a name of
-- each: the word of the category, an underscore and a number.
import StableNames.Text.Search

namespace StableNames

/-- What a name is given to. -/
inductive Category where
  | ofClass
  | ofField
  | ofMethod
deriving DecidableEq, Repr, Inhabited

namespace Category

/-- Every category, in the order in which counters are listed. -/
def all : List Category := [.ofClass, .ofField, .ofMethod]

def word : Category → String
  | .ofClass => "class"
  | .ofField => "field"
  | .ofMethod => "method"

/-- The category with this word. -/
def ofWord? (word : String) : Option Category :=
  all.find? (·.word = word)

/-- What a name of the category starts with. -/
def marker (c : Category) : String := c.word ++ "_"

/-- The name with a number. -/
def name (c : Category) (n : Nat) : String := c.marker ++ toString n

/-- Whether an existing name may stay: the marker of the category stands in it. -/
def owns (c : Category) (name : String) : Bool :=
  Text.occursIn c.marker.toList name.toList

theorem ofWord?_word (c : Category) : ofWord? c.word = some c := by
  cases c <;> decide

end Category

end StableNames
