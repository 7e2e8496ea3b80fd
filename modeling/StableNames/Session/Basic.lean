-- A session names one graph. It owns its settings, the graphs and stores
-- that names come from, and all that naming changes. What a session has
-- named and counted stays, also after a failure.
import StableNames.Naming.Resolver
import StableNames.Settings.Basic
import StableNames.Snapshot.Record

namespace StableNames

structure Session where
  settings : Settings
  lineage : Lineage
  naming : Naming := {}
deriving Inhabited

namespace Session

/-- The session for a graph before anything else is known. -/
def start (settings : Settings) (graph : Graph) : Session :=
  { settings, lineage := { graph } }

def setOldGraph (s : Session) (g : Graph) : Session :=
  { s with lineage.old? := some g }

/-- The session with a store for the same version. -/
def setCurrent (s : Session) (store : Store) : Session :=
  { s with lineage.chain.current? := some store }

/-- The session with the stores of an earlier version. -/
def setEarlier (s : Session) (earlier : Earlier) : Session :=
  { s with lineage.chain.earlier? := some earlier }

/-- The session with counters set, read from the left. -/
def applyCounters (s : Session) (settings : List (Category × Nat)) : Session :=
  { s with naming.allocator := s.naming.allocator.setCounters settings }

/-- The session with one more report. -/
def report (s : Session) (notice : Notice) : Session :=
  { s with naming.log := s.naming.log ++ [notice] }

end Session

end StableNames
