-- What a preparation leaves behind. It takes the names of a snapshot and
-- sets the counters that go with them: those of the counter file if it is
-- there, or else those of the snapshot. Numbers are handed out from there
-- on, so a name of the snapshot is not handed out again as long as its
-- number is behind the counters that were set.
import StableNames.Proofs.Session.Dialogues
import StableNames.Proofs.Session.Resumption
import StableNames.Session.Prepare

namespace StableNames

namespace Step

variable {σ α β : Type} {s s₁ : σ}

theorem exec_modify_bind (g : σ → σ) (f : Unit → Step σ β) :
    ((modify g : Step σ Unit) >>= f).exec s = (f ()).exec (g s) := rfl

theorem exec_ofExcept_bind_eq_ok {x : Except Problem α} {f : α → Step σ β} {b : β} :
    (ofExcept x >>= f).exec s = (.ok b, s₁) ↔ ∃ a, x = .ok a ∧ (f a).exec s = (.ok b, s₁) := by
  rw [exec_bind_eq_ok]
  constructor
  · rintro ⟨a, s', hx, h⟩
    cases hx
    exact ⟨a, rfl, h⟩
  · rintro ⟨a, rfl, h⟩
    exact ⟨a, s, rfl, h⟩

end Step

/-! ## Counters that are set -/

namespace Session

variable {t : FileTree} {mappings path : String} {embedded counters : List (Category × Nat)}
  {s s' s₁ : Session} {problem : Problem}

theorem SameButLog.refl (s : Session) : s.SameButLog s := ⟨s.naming.log, rfl⟩

theorem SameButLog.trans (h : s.SameButLog s') (h' : s'.SameButLog s₁) : s.SameButLog s₁ := by
  obtain ⟨_, rfl⟩ := h
  obtain ⟨log, rfl⟩ := h'
  exact ⟨log, rfl⟩

theorem sameButLog_report (s : Session) (notice : Notice) : s.SameButLog (s.report notice) :=
  ⟨_, rfl⟩

/-- The counters that go with mappings whose own counters are `embedded`. -/
def countersBeside (t : FileTree) (s : Session) (mappings : String)
    (embedded : List (Category × Nat)) : Except Problem (List (Category × Nat)) :=
  let path := counterSource t mappings s.settings.counterFile?
  if Path.same path mappings then .ok embedded else t.loadCounters path

/-- The counters that a session sets for the mappings of a file. -/
def countersOf (s : Session) (t : FileTree) (mappings : String) :
    Except Problem (List (Category × Nat)) := do
  countersBeside t s mappings (← t.loadSnapshot mappings).counters

theorem countersOf_of_snapshot {snapshot : Snapshot}
    (h : t.loadSnapshot mappings = .ok snapshot) :
    s.countersOf t mappings = countersBeside t s mappings snapshot.counters := by
  unfold countersOf
  rw [h, ok_bind]

/-- The counters are those of the mappings, or those of a counter file. -/
theorem countersBeside_eq_ok (h : countersBeside t s mappings embedded = .ok counters) :
    counters = embedded ∨ ∃ path ∈ s.settings.counterFile?, Path.same path mappings = false ∧
      t.loadCounters path = .ok counters := by
  have hself : Path.same mappings mappings = true := by
    unfold Path.same
    exact decide_eq_true rfl
  unfold countersBeside at h
  simp only at h
  split at h
  · cases h
    exact Or.inl rfl
  · rename_i hother
    unfold counterSource at h hother
    rcases hfile : s.settings.counterFile? with _ | path
    · rw [hfile] at hother
      exact absurd hself hother
    · rw [hfile] at h hother
      simp only at h hother
      split at h
      · rename_i hhas
        rw [if_pos hhas] at hother
        exact Or.inr ⟨path, rfl, Bool.eq_false_iff.2 hother, h⟩
      · rename_i hhas
        rw [if_neg hhas] at hother
        exact absurd hself hother

/-- What comes of counters that are read: they are set, or the problem with them is reported.
Nothing else changes but the log. -/
inductive Resumes (s : Session) :
    Except Problem (List (Category × Nat)) → Except Problem Unit × Session → Prop
  | set {counters : List (Category × Nat)} {s₁ : Session}
      (h : (s.applyCounters counters).SameButLog s₁) : Resumes s (.ok counters) (.ok (), s₁)
  | failed {problem : Problem} {s₁ : Session} (h : s.SameButLog s₁) :
      Resumes s (.error problem) (.error problem, s₁)

theorem Resumes.eq_ok {counters? : Except Problem (List (Category × Nat))}
    (h : Resumes s counters? (.ok (), s₁)) :
    ∃ counters, counters? = .ok counters ∧ (s.applyCounters counters).SameButLog s₁ := by
  cases h with
  | set hset => exact ⟨_, rfl, hset⟩

theorem Resumes.eq_error {counters? : Except Problem (List (Category × Nat))}
    (h : Resumes s counters? (.error problem, s₁)) :
    counters? = .error problem ∧ s.SameButLog s₁ := by
  cases h with
  | failed hlog => exact ⟨rfl, hlog⟩

theorem resumes_readCountersOf (t : FileTree) (path : String) (s : Session) :
    Resumes s (t.loadCounters path) ((readCountersOf t path).exec s) := by
  unfold readCountersOf
  rw [Step.exec_modify_bind, Step.exec_bind]
  rcases t.loadCounters path with problem | counters
  · exact .failed (sameButLog_report s _)
  · exact .set ⟨_, rfl⟩

theorem resumes_resumeCounters (t : FileTree) (mappings : String)
    (embedded : List (Category × Nat)) (s : Session) :
    Resumes s (countersBeside t s mappings embedded)
      ((resumeCounters t mappings embedded).exec s) := by
  unfold resumeCounters countersBeside
  rw [Step.exec_bind, Step.exec_get]
  simp only
  split_ifs
  · exact .set ⟨_, rfl⟩
  · exact resumes_readCountersOf t _ s

theorem exec_resumeCounters_eq_ok
    (h : (resumeCounters t mappings embedded).exec s = (.ok (), s₁)) :
    ∃ counters, countersBeside t s mappings embedded = .ok counters ∧
      (s.applyCounters counters).SameButLog s₁ :=
  (h ▸ resumes_resumeCounters t mappings embedded s).eq_ok

theorem exec_resumeCounters_eq_error
    (h : (resumeCounters t mappings embedded).exec s = (.error problem, s₁)) :
    countersBeside t s mappings embedded = .error problem ∧ s.SameButLog s₁ :=
  (h ▸ resumes_resumeCounters t mappings embedded s).eq_error

/-- The session after a preparation that found its mappings. -/
inductive Prepared (t : FileTree) (mappings : String) (s s₁ : Session) : Prop
  | regenerated (h : (prepareRegenerate t mappings).exec s = (.ok true, s₁))
  | updated {matchesFile : String}
      (h : (prepareUpdate t mappings matchesFile).exec s = (.ok (), s₁))
  | rederived (h : (prepareRederive t mappings).exec s = (.ok (), s₁))

/-- Where there are no mappings, the preparation says so. -/
theorem answer_of_missing (hhas : t.has mappings = false) {found : Bool}
    (h : (prepareRegenerate t mappings).exec s = (.ok found, s₁)) : found = false := by
  unfold prepareRegenerate at h
  simp only [hhas, Bool.not_false, if_true] at h
  rw [Step.exec_bind, Step.exec_get] at h
  simp only at h
  rcases hfile : s.settings.counterFile? with _ | path
  · simp only [hfile] at h
    cases h
    rfl
  simp only [hfile] at h
  rcases hcounters : t.has path with _ | _
  · simp only [hcounters, Bool.false_eq_true, if_false] at h
    cases h
    rfl
  · simp only [hcounters, if_true] at h
    obtain ⟨_, _, _, h⟩ := Step.exec_bind_eq_ok.1 h
    cases h
    rfl

/-- Each preparation sets the counters that go with the mappings, and no symbol gets a number
by it. -/
theorem Prepared.exists_counters (h : Prepared t mappings s s₁) :
    ∃ counters, s.countersOf t mappings = .ok counters ∧
      s₁.naming.allocator = s.naming.allocator.setCounters counters := by
  cases h with
  | regenerated h =>
    rcases hhas : t.has mappings with _ | _
    · cases answer_of_missing hhas h
    unfold prepareRegenerate at h
    simp only [hhas, Bool.not_true, Bool.false_eq_true, if_false] at h
    rw [Step.exec_modify_bind] at h
    obtain ⟨snapshot, hload, h⟩ := Step.exec_ofExcept_bind_eq_ok.1 h
    obtain ⟨store, -, h⟩ := Step.exec_ofExcept_bind_eq_ok.1 h
    rw [Step.exec_modify_bind] at h
    obtain ⟨_, s₂, hresume, h⟩ := Step.exec_bind_eq_ok.1 h
    obtain ⟨counters, hcounters, log, rfl⟩ := exec_resumeCounters_eq_ok hresume
    cases h
    exact ⟨counters, (countersOf_of_snapshot hload).trans hcounters, rfl⟩
  | updated h =>
    unfold prepareUpdate at h
    obtain ⟨snapshot, hload, h⟩ := Step.exec_ofExcept_bind_eq_ok.1 h
    obtain ⟨_, s₂, hresume, h⟩ := Step.exec_bind_eq_ok.1 h
    obtain ⟨counters, hcounters, log, rfl⟩ := exec_resumeCounters_eq_ok hresume
    obtain ⟨found, -, h⟩ := Step.exec_ofExcept_bind_eq_ok.1 h
    obtain ⟨count, -, h⟩ := Step.exec_ofExcept_bind_eq_ok.1 h
    rw [Step.exec_modify_bind] at h
    obtain ⟨names, -, h⟩ := Step.exec_ofExcept_bind_eq_ok.1 h
    cases h
    exact ⟨counters, (countersOf_of_snapshot hload).trans hcounters, rfl⟩
  | rederived h =>
    unfold prepareRederive at h
    obtain ⟨snapshot, hload, h⟩ := Step.exec_ofExcept_bind_eq_ok.1 h
    obtain ⟨_, s₂, hresume, h⟩ := Step.exec_bind_eq_ok.1 h
    obtain ⟨counters, hcounters, log, rfl⟩ := exec_resumeCounters_eq_ok hresume
    obtain ⟨names, -, h⟩ := Step.exec_ofExcept_bind_eq_ok.1 h
    cases h
    exact ⟨counters, (countersOf_of_snapshot hload).trans hcounters, rfl⟩

end Session

/-! ## Names that a snapshot carries -/

/-- The parts of a name between its slashes and dollars. -/
def nameParts (name : String) : List String :=
  (name.toList.splitOnP fun c => c = '/' || c = '$').map String.ofList

namespace Snapshot

/-- The names of all records, each with the parts that it is put together from. -/
def parts (s : Snapshot) : List String :=
  (s.classes.flatten ++ (s.fields ++ s.methods).flatMap (·.names)).flatMap nameParts

/-- All names with a number that the snapshot carries are behind the counters. -/
def Behind (s : Snapshot) (counters : List (Category × Nat)) : Prop :=
  ∀ category n, category.name n ∈ s.parts → n < (Counters.setAll {} counters).next category

theorem behind_of_parts {s : Snapshot} {counters : List (Category × Nat)}
    (h : ∀ part ∈ s.parts, ∀ category ∈ Category.all, category.owns part = true →
      ∃ n < (Counters.setAll {} counters).next category, part = category.name n) :
    s.Behind counters := by
  intro category n hpart
  have hcategory : category ∈ Category.all := by cases category <;> decide
  obtain ⟨n', hlt, hname⟩ := h _ hpart category hcategory (Category.owns_name _ n)
  obtain ⟨_, rfl⟩ := Category.name_inj hname
  exact hlt

end Snapshot

namespace Session

variable {μ : Type}

/-- The name was handed out by the time the run ended, whether it failed or not. A counter has
the size of a word, so a number that does not fit into one has lost what is above it. -/
def HandsOut (s : Session) (policy : Policy μ) (memory : μ) (name : String) : Prop :=
  ∃ symbol category n,
    (s.generate policy memory).2.1.naming.allocator.numbers.get? symbol = some (category, n) ∧
      name = category.name (n % Text.wordLimit)

/-- A run numbers from its counters on, and behind those that it ends with. -/
theorem tidy_generate {s : Session} (hnone : s.naming.allocator.numbers = ∅) (policy : Policy μ)
    (memory : μ) :
    (s.generate policy memory).2.1.naming.allocator.Tidy s.naming.allocator.counters := by
  have hkept := (resumable_allRecords s.settings s.lineage).retains policy (s.naming, memory)
  have htidy := hkept.tidy _ (Allocator.tidy_of_numbers_eq hnone)
  rcases hrun : (allRecords s.settings s.lineage policy).exec (s.naming, memory) with
    ⟨problem | rs, n', memory'⟩
  · rw [generate_of_exec_error hrun]
    rwa [hrun] at htidy
  · rw [generate_of_exec hrun]
    rwa [hrun] at htidy

/-- Where the counters have not run over, the numbers that were handed out have not either. -/
theorem mod_wordLimit_of_fit {first : Counters} {a : Allocator} (htidy : a.Tidy first)
    (hfit : a.counters.Fit) {symbol : Symbol} {category : Category} {n : Nat}
    (hn : a.numbers.get? symbol = some (category, n)) : n % Text.wordLimit = n := by
  obtain ⟨k, hk, hlt⟩ := htidy.lt_counter symbol category n hn
  have hmem : (category, k) ∈ a.counters.toList := by
    have hcategory : category ∈ Category.all := by cases category <;> decide
    exact List.mem_filterMap.2 ⟨category, hcategory, by rw [hk]; rfl⟩
  exact Nat.mod_eq_of_lt (Nat.lt_trans hlt (hfit _ hmem))

/-- No name of the loaded mappings is handed out again. The counters of the mappings have to
be ahead of all names in them, and so have those of a counter file that is there: it is read
in place of the others. And no counter may run over. -/
theorem loaded_names_are_not_handed_out {t : FileTree} {mappings : String} {s s₁ : Session}
    {snapshot : Snapshot} (hnew : s.naming.allocator = {})
    (hload : t.loadSnapshot mappings = .ok snapshot) (hprepared : Prepared t mappings s s₁)
    (hbehind : snapshot.Behind snapshot.counters)
    (hfile : ∀ path ∈ s.settings.counterFile?, Path.same path mappings = false →
      ∀ counters, t.loadCounters path = .ok counters → snapshot.Behind counters)
    (policy : Policy μ) (memory : μ)
    (hfit : (s₁.generate policy memory).2.1.naming.allocator.counters.Fit)
    {name : String} (hname : name ∈ snapshot.parts) :
    ¬ s₁.HandsOut policy memory name := by
  rintro ⟨symbol, category, n, hn, rfl⟩
  obtain ⟨counters, hcounters, hallocator⟩ := hprepared.exists_counters
  rw [countersOf_of_snapshot hload] at hcounters
  have hset : snapshot.Behind counters := by
    rcases countersBeside_eq_ok hcounters with rfl | ⟨path, hpath, hother, hread⟩
    · exact hbehind
    · exact hfile path hpath hother counters hread
  rw [hnew] at hallocator
  have htidy := tidy_generate (by rw [hallocator]; rfl) policy memory
  rw [mod_wordLimit_of_fit htidy hfit hn] at hname
  have hle := htidy.first_le symbol category n hn
  rw [hallocator] at hle
  exact absurd hle (Nat.not_le.2 (hset category n hname))

/-- The mappings of one class beside a file with the counter of classes. -/
def besideCounter (n : Nat) : FileTree where
  nodes := .ofList [
    (["old.tiny"], .file (writeSnapshot officialNamespace stableNamespace
      [.ofClass "a" "net/minecraft/class_1", .verbatim (counterLine .ofClass 2)]).toUTF8),
    (["counters.txt"], .file (counterLine .ofClass n).toUTF8)]

/-- What is read from these mappings. -/
def oneClass : Snapshot where
  namespaces := [officialNamespace, stableNamespace]
  entries := [.ofClass ["a", "net/minecraft/class_1"], .counter .ofClass 2]

/-- A session for this class and three new ones. -/
def grownSession : Session where
  settings := { allScrambled with counterFile? := some "counters.txt" }
  lineage.graph := (Graph.ofDocument ""
    ⟨[{ name := "a" }, { name := "b" }, { name := "c" }, { name := "d" }]⟩).toOption.getD {}

/-- That session with its counter set to `n`. -/
def grownSessionAt (n : Nat) : Session :=
  ((prepareRederive (besideCounter n) "old.tiny").exec grownSession).2

theorem loadSnapshot_besideCounter :
    ∀ n ∈ [1, 3, 4294967295], (besideCounter n).loadSnapshot "old.tiny" = .ok oneClass := by
  have h : ∀ n ∈ [1, 3, 4294967295],
      ((besideCounter n).loadSnapshot "old.tiny").toOption = some oneClass := by decide +kernel
  exact fun n hn => eq_ok_of_toOption (h n hn)

theorem loadCounters_besideCounter :
    ∀ n ∈ [1, 3, 4294967295], (besideCounter n).loadCounters "counters.txt" =
      .ok [(.ofClass, n)] := by
  have h : ∀ n ∈ [1, 3, 4294967295],
      ((besideCounter n).loadCounters "counters.txt").toOption = some [(.ofClass, n)] := by
    decide +kernel
  exact fun n hn => eq_ok_of_toOption (h n hn)

theorem prepared_grownSessionAt : ∀ n ∈ [1, 3, 4294967295],
    Prepared (besideCounter n) "old.tiny" grownSession (grownSessionAt n) := by
  have h : ∀ n ∈ [1, 3, 4294967295],
      ((prepareRederive (besideCounter n) "old.tiny").exec grownSession).1.toOption = some () := by
    decide +kernel
  exact fun n hn => .rederived (Prod.ext (eq_ok_of_toOption (h n hn)) rfl)

theorem behind_oneClass {n : Nat} (hn : 2 ≤ n) : oneClass.Behind [(.ofClass, n)] := by
  have hleast : oneClass.Behind [(.ofClass, 2)] := Snapshot.behind_of_parts (by decide +kernel)
  intro category k hpart
  have hlt := hleast category k hpart
  cases category with
  | ofClass => exact Nat.lt_of_lt_of_le hlt hn
  | ofField => exact hlt
  | ofMethod => exact hlt

theorem behind_counterFile {n : Nat} (hn : n ∈ [1, 3, 4294967295]) (htwo : 2 ≤ n) :
    ∀ path ∈ grownSession.settings.counterFile?, Path.same path "old.tiny" = false →
      ∀ counters, (besideCounter n).loadCounters path = .ok counters →
        oneClass.Behind counters := by
  rintro _ ⟨⟩ _ counters hread
  rw [loadCounters_besideCounter n hn] at hread
  cases hread
  exact behind_oneClass htwo

/-- The counter file is ahead, and the first new class gets its number. -/
theorem loaded_names_are_not_handed_out_ahead :
    (grownSessionAt 3).HandsOut .fail () "class_3" ∧
      ¬ (grownSessionAt 3).HandsOut .fail () "class_1" := by
  refine ⟨⟨.ofClass 1, .ofClass, 3, by decide +kernel, by decide +kernel⟩, ?_⟩
  refine loaded_names_are_not_handed_out rfl (loadSnapshot_besideCounter 3 (by decide))
    (prepared_grownSessionAt 3 (by decide)) (behind_oneClass (Nat.le_refl 2))
    (behind_counterFile (by decide) (by decide)) .fail () (by decide +kernel) (by decide +kernel)

/-- Counters of the mappings that are ahead are not enough. A counter file that is behind them is
read all the same, and then a new class gets the name that the other one has. Nor is it enough
that all counters are ahead: after the last number that a word holds they start over. -/
theorem loaded_names_are_handed_out_again :
    (¬ ∀ (t : FileTree) (mappings : String) (s s₁ : Session) (snapshot : Snapshot),
      s.naming.allocator = {} → t.loadSnapshot mappings = .ok snapshot →
      Prepared t mappings s s₁ → snapshot.Behind snapshot.counters →
      (s₁.generate .fail ()).2.1.naming.allocator.counters.Fit →
      ∀ name ∈ snapshot.parts, ¬ s₁.HandsOut .fail () name) ∧
    ¬ ∀ (t : FileTree) (mappings : String) (s s₁ : Session) (snapshot : Snapshot),
      s.naming.allocator = {} → t.loadSnapshot mappings = .ok snapshot →
      Prepared t mappings s s₁ → snapshot.Behind snapshot.counters →
      (∀ path ∈ s.settings.counterFile?, Path.same path mappings = false →
        ∀ counters, t.loadCounters path = .ok counters → snapshot.Behind counters) →
      ∀ name ∈ snapshot.parts, ¬ s₁.HandsOut .fail () name := by
  constructor
  · intro h
    refine h (besideCounter 1) "old.tiny" grownSession (grownSessionAt 1) oneClass rfl
      (loadSnapshot_besideCounter 1 (by decide)) (prepared_grownSessionAt 1 (by decide))
      (behind_oneClass (Nat.le_refl 2)) (by decide +kernel) "class_1" (by decide +kernel) ?_
    exact ⟨.ofClass 1, .ofClass, 1, by decide +kernel, by decide +kernel⟩
  · intro h
    refine h (besideCounter 4294967295) "old.tiny" grownSession (grownSessionAt 4294967295)
      oneClass rfl (loadSnapshot_besideCounter _ (by decide))
      (prepared_grownSessionAt _ (by decide)) (behind_oneClass (Nat.le_refl 2))
      (behind_counterFile (by decide) (by decide)) "class_1" (by decide +kernel) ?_
    exact ⟨.ofClass 3, .ofClass, 4294967297, by decide +kernel, by decide +kernel⟩

end Session

end StableNames
