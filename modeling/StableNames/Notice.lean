-- What a run says while it works.

namespace StableNames

inductive NoticeLevel where
  | info
  | warning
deriving DecidableEq, Repr

/-- A message of a run. -/
structure Notice where
  level : NoticeLevel
  text : String
deriving DecidableEq, Repr

namespace Notice

def info (text : String) : Notice := ⟨.info, text⟩

def warning (text : String) : Notice := ⟨.warning, text⟩

end Notice

end StableNames
