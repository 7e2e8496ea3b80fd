-- Fresh names. Each category counts on its own, and a symbol keeps the
-- number that it got first. A symbol that has a number in one category is
-- refused in another. Numbers grow without end here; a counter that is
-- kept in a word is the same as long as they fit into it.
import StableNames.Assoc
import StableNames.Counters

namespace StableNames

/-- The counters, and the number of every symbol that got one. -/
structure Allocator where
  counters : Counters := {}
  numbers : Assoc Symbol (Category × Nat) := ∅
deriving Repr, Inhabited

namespace Allocator

/-- The number that a category starts with. -/
def firstNumber : Nat := 1

/-- The next number of a category. -/
def next (a : Allocator) (c : Category) : Nat := (a.counters.get? c).getD firstNumber

/-- The allocator with the next number of a category changed. -/
def setCounter (a : Allocator) (c : Category) (n : Nat) : Allocator :=
  { a with counters := a.counters.set c n }

/-- The allocator after a list of settings, read from the left. -/
def setCounters (a : Allocator) (settings : List (Category × Nat)) : Allocator :=
  { a with counters := a.counters.setAll settings }

/-- How many symbols have a number. -/
def allocated (a : Allocator) : Nat := a.numbers.size

/-- The name of a symbol in a category: its own if it has a number, or else the next one. -/
def allocate (a : Allocator) (s : Symbol) (c : Category) : Except Problem (String × Allocator) :=
  match a.numbers.get? s with
  | some (given, n) =>
    if given = c then .ok (c.name n, a) else .error (.reassigned s given n c)
  | none =>
    let n := a.next c
    .ok (c.name n, { counters := a.counters.set c (n + 1), numbers := a.numbers.insert s (c, n) })

end Allocator

end StableNames
