-- Families: the methods that must share one name, because they override
-- one another or are bridges and erasures of one another. The search goes
-- from a method to its override slot and to what is related to the slot.
import StableNames.Graph.Hierarchy

namespace StableNames.Graph

/-- The methods of a slot: what each of its classes declares under the key of `m`. -/
def slotMethods (g : Graph) (c : ClassId) (m : MethodId) : List MethodId :=
  (g.slot c m).filterMap fun d => g.methodIn? d (g.method m).key

/-- The methods related to those of a slot, with their owners. -/
def slotRelated (g : Graph) (c : ClassId) (m : MethodId) : List (ClassId × MethodId) :=
  (g.slot c m).flatMap fun d => g.relatedMethods d m

/-- The methods whose slots the search looks at, each with the class that it is seen from.
A method of a slot that was looked at is found and not looked at again. -/
def visitsFrom (g : Graph) (found : List MethodId) :
    List (ClassId × MethodId) → List (ClassId × MethodId)
  | [] => []
  | (c, m) :: agenda =>
    if _h : m ∈ found ∨ g.methodCount ≤ m then g.visitsFrom found agenda
    else
      (c, m) ::
        g.visitsFrom (m :: g.slotMethods c m ++ found) (g.slotRelated c m ++ agenda)
termination_by agenda => (Reach.unmarked g.methodCount found, agenda.length)
decreasing_by
  · exact Prod.Lex.right _ (by simp)
  · rw [not_or] at _h
    exact Prod.Lex.left _ _ (Reach.unmarked_lt (by omega) _h.1 (by simp)
      fun x hx => by simp [hx])

/-- The slots that the family of a method of `c` is made of. -/
def visits (g : Graph) (c : ClassId) (m : MethodId) : List (ClassId × MethodId) :=
  g.visitsFrom [] [(c, m)]

/-- The family of a method of `c`, in the order in which the search finds it. -/
def family (g : Graph) (c : ClassId) (m : MethodId) : List MethodId :=
  ((g.visits c m).flatMap fun (d, n) => n :: g.slotMethods d n).eraseDups

end StableNames.Graph
