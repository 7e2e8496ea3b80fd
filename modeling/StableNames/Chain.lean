-- The stores that know names from before: one for the same version, and
-- for an earlier version the match of each symbol and the names it had.
-- The same version is asked first.
import StableNames.Store

namespace StableNames

/-- What is known of an earlier version: the match of each new symbol, and the name of each
old one. -/
structure Earlier where
  toOld : Store
  names : Store
deriving Repr

structure Chain where
  current? : Option Store := none
  earlier? : Option Earlier := none
deriving Repr, Inhabited

namespace Chain

/-- The name of a field or method in the store for the same version. -/
def currentMember (chain : Chain) (member : Member) : Option Member :=
  chain.current?.bind (·.lookupMember member)

/-- The earlier name of a class. -/
def lookupClass (chain : Chain) (name : String) : Option String :=
  (chain.current?.bind (·.lookupClass name)).or <|
    chain.earlier?.bind fun earlier =>
      (earlier.toOld.lookupClass name).bind earlier.names.lookupClass

/-- The earlier name of a field or method, without a look at the hierarchy. -/
def lookupMember (chain : Chain) (member : Member) : Option Member :=
  (chain.currentMember member).or <|
    chain.earlier?.bind fun earlier =>
      (earlier.toOld.lookupMember member).bind earlier.names.lookupMember

end Chain

end StableNames
