-- Questions about the hierarchy of a graph: which classes declare the
-- same virtual method, which declaration is the first, and what the
-- related methods of a declaration are.
import StableNames.Graph.Basic
import StableNames.Reach

namespace StableNames.Graph

/-- The superclass and the interfaces of a class, in this order. -/
def supertypes (g : Graph) (c : ClassId) : List ClassId :=
  (g.kinOf c).super?.toList ++ (g.kinOf c).interfaces

/-- The subclasses and the implementers of a class, in this order. -/
def subtypes (g : Graph) (c : ClassId) : List ClassId :=
  (g.kinOf c).subclasses ++ (g.kinOf c).implementers

/-- Whether the class declares a method under the key that takes part in overriding. -/
def declaresVirtual (g : Graph) (key : String) (c : ClassId) : Bool :=
  (g.methodIn? c key).any fun m => !(g.method m).isFixed

/-- The classes above a class that declare a virtual method under the key, nearest first. -/
def declaringAncestors (g : Graph) (key : String) (c : ClassId) : List ClassId :=
  (Reach.preorder g.classCount g.supertypes [c] (g.supertypes c)).filter (g.declaresVirtual key)

/-- All classes below a class. -/
def descendants (g : Graph) (c : ClassId) : List ClassId :=
  Reach.spread .stack g.classCount g.subtypes [c] [c]

/-- Where a search for declarations goes on from a class. -/
def neighbours (g : Graph) (key : String) (c : ClassId) : List ClassId :=
  g.declaringAncestors key c ++ g.descendants c

/-- The classes that share an override slot with a method of `c`, that class first. Classes
that only inherit the method link others and are not listed themselves. -/
def slot (g : Graph) (c : ClassId) (m : MethodId) : List ClassId :=
  if (g.method m).isFixed then [c]
  else
    let key := (g.method m).key
    c :: (Reach.spread .queue g.classCount (g.neighbours key) [c] [c]).filter
      (g.declaresVirtual key)

/-- Whether a method of `c` is declared there first: nothing above declares it, or it takes
no part in overriding. -/
def isSource (g : Graph) (c : ClassId) (m : MethodId) : Bool :=
  (g.method m).isFixed || (g.declaringAncestors (g.method m).key c).isEmpty

/-- The methods related to what `c` declares under the key of `m`, with their owners. -/
def relatedMethods (g : Graph) (c : ClassId) (m : MethodId) : List (ClassId × MethodId) :=
  match g.methodIn? c (g.method m).key with
  | none => []
  | some own => (g.relatedTo own).map fun r => ((g.method r).owner, r)

end StableNames.Graph
