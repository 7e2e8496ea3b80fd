-- How the ancestors of a class are shown: `a<-b`, or `a<-[b,c<-d]` for
-- several supertypes. A class that already stands on the way down to it is
-- shown by its name alone, so that every hierarchy has a finite text.
import StableNames.Graph.Hierarchy

namespace StableNames.Graph

/-- The text of the ancestors of one class, given the texts of its supertypes. -/
def showAncestors (name : String) (parts : List String) : String :=
  match parts.filter (· ≠ "") with
  | [] => name
  | [part] => name ++ "<-" ++ part
  | several => name ++ "<-[" ++ ",".intercalate several ++ "]"

/-- The ancestry of a class that is reached through the classes on `path`. -/
def ancestryFrom (g : Graph) (path : List ClassId) (c : ClassId) : String :=
  if _h : c ∈ path ∨ g.classCount ≤ c then g.className c
  else showAncestors (g.className c) ((g.supertypes c).map (g.ancestryFrom (c :: path)))
termination_by Reach.unmarked g.classCount path
decreasing_by
  rw [not_or] at _h
  exact Reach.unmarked_lt (by omega) _h.1 List.mem_cons_self
    fun x hx => List.mem_cons_of_mem _ hx

/-- The ancestry of a class. -/
def ancestry (g : Graph) (c : ClassId) : String := g.ancestryFrom [] c

/-- The class as it is named among the origins of a candidate. -/
def origin (g : Graph) (c : ClassId) : String :=
  if (g.classInfo c).isInterface then g.ancestry c ++ "(itf)" else g.ancestry c

end StableNames.Graph
