-- What a failed preparation leaves behind. A preparation takes over what
-- it reads piece by piece: the names of an output before its counters, and
-- the counters of an earlier version before its matches and names. What
-- was taken over before the failure stays, and later runs see it. All else
-- is as it was.
import StableNames.Proofs.Session.Preparation

namespace StableNames

namespace Step

variable {σ α β : Type} {s s₁ : σ} {problem : Problem} {f : α → Step σ β}

/-- Two steps in a row fail in the first or in the second of them. -/
theorem exec_bind_eq_error {x : Step σ α} : (x >>= f).exec s = (.error problem, s₁) ↔
    x.exec s = (.error problem, s₁) ∨
      ∃ a s₂, x.exec s = (.ok a, s₂) ∧ (f a).exec s₂ = (.error problem, s₁) := by
  rw [exec_bind]
  rcases x.exec s with ⟨_ | a, s₂⟩
  · simp
  · constructor
    · intro h
      exact Or.inr ⟨a, s₂, rfl, h⟩
    · rintro (h | ⟨_, _, h, h'⟩)
      · cases h
      · cases h
        exact h'

theorem exec_ofExcept_bind_eq_error {x : Except Problem α} :
    (ofExcept x >>= f).exec s = (.error problem, s₁) ↔
      (x = .error problem ∧ s₁ = s) ∨ ∃ a, x = .ok a ∧ (f a).exec s = (.error problem, s₁) := by
  rw [exec_bind_eq_error]
  constructor
  · rintro (h | ⟨a, _, hx, h⟩)
    · obtain ⟨rfl, rfl⟩ := Prod.mk.inj h
      exact Or.inl ⟨rfl, rfl⟩
    · cases hx
      exact Or.inr ⟨a, rfl, h⟩
  · rintro (⟨rfl, rfl⟩ | ⟨a, rfl, h⟩)
    · exact Or.inl rfl
    · exact Or.inr ⟨a, s, rfl, h⟩

end Step

/-! ## What is taken over first -/

/-- The names in the snapshot of a file. -/
def FileTree.loadNames (t : FileTree) (path : String) : Except Problem Store := do
  Session.stableStore (← t.loadSnapshot path)

namespace Session

variable {t : FileTree} {output mappings matchesFile : String} {s s₁ : Session} {problem : Problem}

/-- The session with the names of an output for its own version, if they can be read. -/
def withNames (s : Session) (t : FileTree) (output : String) : Session :=
  match t.loadNames output with
  | .ok store => s.setCurrent store
  | .error _ => s

/-- The session with the counters that go with the mappings of a file, if they can be read. -/
def withCounters (s : Session) (t : FileTree) (mappings : String) : Session :=
  match s.countersOf t mappings with
  | .ok counters => s.applyCounters counters
  | .error _ => s

theorem loadNames_of_snapshot {snapshot : Snapshot} (h : t.loadSnapshot output = .ok snapshot) :
    t.loadNames output = stableStore snapshot := by
  unfold FileTree.loadNames
  rw [h, ok_bind]

theorem loadNames_of_error (h : t.loadSnapshot output = .error problem) :
    t.loadNames output = .error problem := by
  unfold FileTree.loadNames
  rw [h]
  rfl

theorem withCounters_of_error (h : t.loadSnapshot mappings = .error problem) :
    s.withCounters t mappings = s := by
  unfold withCounters countersOf
  rw [h]
  rfl

/-- Without an output no names are read. -/
theorem withNames_of_missing (h : t.has output = false) : s.withNames t output = s := by
  have hload : t.loadSnapshot output = .error (.fileNotFound output) := by
    unfold FileTree.loadSnapshot FileTree.load
    rw [h]
    rfl
  unfold withNames
  rw [loadNames_of_error hload]

/-! ## Where a preparation can fail -/

theorem exec_prepareRegenerate_eq_error
    (h : (prepareRegenerate t output).exec s = (.error problem, s₁)) :
    (s.withNames t output).SameButLog s₁ := by
  unfold prepareRegenerate at h
  rcases hhas : t.has output with _ | _
  · simp only [hhas, Bool.not_false, if_true] at h
    rw [withNames_of_missing hhas]
    rw [Step.exec_bind, Step.exec_get] at h
    simp only at h
    rcases hfile : s.settings.counterFile? with _ | path
    · simp only [hfile] at h
      cases h
    simp only [hfile] at h
    rcases hcounters : t.has path with _ | _
    · simp only [hcounters, Bool.false_eq_true, if_false] at h
      cases h
    · simp only [hcounters, if_true] at h
      rcases Step.exec_bind_eq_error.1 h with hread | ⟨_, _, -, h⟩
      · exact (hread ▸ resumes_readCountersOf t path s).eq_error.2
      · cases h
  simp only [hhas, Bool.not_true, Bool.false_eq_true, if_false] at h
  rw [Step.exec_modify_bind] at h
  unfold withNames
  obtain ⟨hload, rfl⟩ | ⟨snapshot, hload, h⟩ := Step.exec_ofExcept_bind_eq_error.1 h
  · rw [loadNames_of_error hload]
    exact sameButLog_report s _
  rw [loadNames_of_snapshot hload]
  obtain ⟨hstore, rfl⟩ | ⟨store, hstore, h⟩ := Step.exec_ofExcept_bind_eq_error.1 h
  · rw [hstore]
    exact sameButLog_report s _
  rw [hstore]
  -- From here on the names are taken over, and only the counters can still fail.
  rw [Step.exec_modify_bind] at h
  obtain hcounters | ⟨_, _, -, h⟩ := Step.exec_bind_eq_error.1 h
  · obtain ⟨-, log, rfl⟩ := exec_resumeCounters_eq_error hcounters
    exact ⟨log, rfl⟩
  · cases h

/-- What is read after the counters changes nothing when it fails. -/
theorem withCounters_of_resumed {snapshot : Snapshot} {rest : Unit → Step Session Unit}
    (hload : t.loadSnapshot mappings = .ok snapshot)
    (hrest : ∀ s' s₁, (rest ()).exec s' = (.error problem, s₁) → s'.SameButLog s₁)
    (h : (resumeCounters t mappings snapshot.counters >>= rest).exec s = (.error problem, s₁)) :
    (s.withCounters t mappings).SameButLog s₁ := by
  unfold withCounters
  rw [countersOf_of_snapshot hload]
  obtain hcounters | ⟨_, s', hcounters, h⟩ := Step.exec_bind_eq_error.1 h
  · obtain ⟨hread, hlog⟩ := exec_resumeCounters_eq_error hcounters
    rw [hread]
    exact hlog
  · obtain ⟨counters, hread, hlog⟩ := exec_resumeCounters_eq_ok hcounters
    rw [hread]
    exact hlog.trans (hrest _ _ h)

theorem exec_prepareUpdate_eq_error
    (h : (prepareUpdate t mappings matchesFile).exec s = (.error problem, s₁)) :
    (s.withCounters t mappings).SameButLog s₁ := by
  unfold prepareUpdate at h
  obtain ⟨hload, rfl⟩ | ⟨snapshot, hload, h⟩ := Step.exec_ofExcept_bind_eq_error.1 h
  · rw [withCounters_of_error hload]
    exact .refl s₁
  refine withCounters_of_resumed hload ?_ h
  intro s' s₁ h
  obtain ⟨-, rfl⟩ | ⟨found, -, h⟩ := Step.exec_ofExcept_bind_eq_error.1 h
  · exact .refl s₁
  obtain ⟨-, rfl⟩ | ⟨count, -, h⟩ := Step.exec_ofExcept_bind_eq_error.1 h
  · exact .refl s₁
  rw [Step.exec_modify_bind] at h
  obtain ⟨-, rfl⟩ | ⟨names, -, h⟩ := Step.exec_ofExcept_bind_eq_error.1 h
  · exact sameButLog_report s' _
  · cases h

theorem exec_prepareRederive_eq_error
    (h : (prepareRederive t mappings).exec s = (.error problem, s₁)) :
    (s.withCounters t mappings).SameButLog s₁ := by
  unfold prepareRederive at h
  obtain ⟨hload, rfl⟩ | ⟨snapshot, hload, h⟩ := Step.exec_ofExcept_bind_eq_error.1 h
  · rw [withCounters_of_error hload]
    exact .refl s₁
  refine withCounters_of_resumed hload ?_ h
  intro s' s₁ h
  obtain ⟨-, rfl⟩ | ⟨names, -, h⟩ := Step.exec_ofExcept_bind_eq_error.1 h
  · exact .refl s₁
  · cases h

end Session

/-! ## Preparations that fail -/

/-- The ways to prepare a session. -/
inductive Preparation where
  | regenerate (output : String)
  | update (mappings matchesFile : String)
  | rederive (mappings : String)

namespace Preparation

variable {t : FileTree} {s s₁ : Session} {problem : Problem} {preparation : Preparation}

def run (t : FileTree) : Preparation → Step Session Unit
  | .regenerate output => do
    let _ ← Session.prepareRegenerate t output
  | .update mappings matchesFile => Session.prepareUpdate t mappings matchesFile
  | .rederive mappings => Session.prepareRederive t mappings

/-- The session with what the preparation takes over first: the names of an output, or the
counters of an earlier version. -/
def begun (t : FileTree) (s : Session) : Preparation → Session
  | .regenerate output => s.withNames t output
  | .update mappings _ | .rederive mappings => s.withCounters t mappings

/-- What the preparation would take over first cannot be read. -/
def FailsEarly (t : FileTree) (s : Session) : Preparation → Prop
  | .regenerate output => ∀ store, t.loadNames output ≠ .ok store
  | .update mappings _ | .rederive mappings => ∀ counters, s.countersOf t mappings ≠ .ok counters

theorem begun_of_failsEarly (h : preparation.FailsEarly t s) : preparation.begun t s = s := by
  have hcounters : ∀ mappings, (∀ counters, s.countersOf t mappings ≠ .ok counters) →
      s.withCounters t mappings = s := by
    intro mappings h
    unfold Session.withCounters
    split
    · rename_i hread
      exact absurd hread (h _)
    · rfl
  cases preparation with
  | regenerate output =>
    show s.withNames t output = s
    unfold Session.withNames
    split
    · rename_i hread
      exact absurd hread (h _)
    · rfl
  | update mappings matchesFile => exact hcounters mappings h
  | rederive mappings => exact hcounters mappings h

theorem sameButLog_begun (h : (preparation.run t).exec s = (.error problem, s₁)) :
    (preparation.begun t s).SameButLog s₁ := by
  cases preparation with
  | regenerate output =>
    rcases Step.exec_bind_eq_error.1 h with h | ⟨_, _, -, h⟩
    · exact Session.exec_prepareRegenerate_eq_error h
    · cases h
  | update mappings matchesFile => exact Session.exec_prepareUpdate_eq_error h
  | rederive mappings => exact Session.exec_prepareRederive_eq_error h

/-- Of a preparation that fails nothing stays but what it takes over first, and later runs go
as if that alone had been set. A session is as it was if not even that could be read. -/
theorem failed_preparations_stay_begun (h : (preparation.run t).exec s = (.error problem, s₁)) :
    (preparation.begun t s).SameButLog s₁ ∧
      (preparation.FailsEarly t s → s.SameButLog s₁) ∧
      ∀ (μ : Type) (policy : Policy μ) (memory : μ),
        (s₁.generate policy memory).1 = ((preparation.begun t s).generate policy memory).1 ∧
          (preparation.FailsEarly t s →
            (s₁.generate policy memory).1 = (s.generate policy memory).1) := by
  have hbegun := sameButLog_begun h
  refine ⟨hbegun, ?_, ?_⟩
  · intro hearly
    rwa [begun_of_failsEarly hearly] at hbegun
  · intro μ policy memory
    have hsame :=
      Session.generate_congr (Policy.DecidesLike.refl policy) hbegun (rfl : memory = memory)
    refine ⟨hsame, ?_⟩
    intro hearly
    rwa [begun_of_failsEarly hearly] at hsame

/-- The mappings of an earlier version, with matches that lack the new class. -/
def brokenMatches : FileTree where
  nodes := .ofList [
    (["old.tiny"], .file (writeSnapshot officialNamespace stableNamespace
      [.ofClass "a" "net/minecraft/class_1", .verbatim (counterLine .ofClass 2)]).toUTF8),
    (["old-new.match"], .file "c\tLa;\n".toUTF8)]

/-- A new session for one class. -/
def newcomer : Session where
  settings := Session.allScrambled
  lineage.graph := (Graph.ofDocument "" ⟨[{ name := "b" }]⟩).toOption.getD {}

/-- What is left of that session after an update that fails for its matches. -/
def brokenOff : Session :=
  ((run brokenMatches (.update "old.tiny" "old-new.match")).exec newcomer).2

/-- The counters of the earlier version stay, and the class of a later run gets the second
number instead of the first. -/
theorem failed_preparations_stay_begun_counted :
    (run brokenMatches (.update "old.tiny" "old-new.match")).exec newcomer =
        (.error (.format "old-new.match" 1 .classPair), brokenOff) ∧
      brokenOff.naming.allocator.next .ofClass = 2 ∧
      newcomer.naming.allocator.next .ofClass = 1 ∧
      ((brokenOff.generate .fail ()).1.toOption.map (·.text)) =
        some ("v1\tofficial\tintermediary\nCLASS\tb\tnet/minecraft/class_2\n" ++
          "# INTERMEDIARY-COUNTER class 3\n") := by
  have hrun : (run brokenMatches (.update "old.tiny" "old-new.match")).exec newcomer =
      (.error (.format "old-new.match" 1 .classPair), brokenOff) := by
    refine Prod.ext ?_ rfl
    decide +kernel
  refine ⟨hrun, by decide +kernel, by decide +kernel, ?_⟩
  obtain ⟨-, -, hlater⟩ := failed_preparations_stay_begun hrun
  rw [(hlater Unit .fail ()).1]
  decide +kernel

end Preparation

end StableNames
