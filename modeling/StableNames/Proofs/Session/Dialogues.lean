-- Answers from a dialogue. A line that is no number makes no difference to
-- what is decided, and a number out of range is passed over by both
-- policies. So a dialogue decides as the list of its numbers does, conflict
-- by conflict, and a run cannot tell them apart but by what they report.
import StableNames.Proofs.Naming.Resumable
import StableNames.Proofs.Session.Steps

namespace StableNames

/-! ## Conflicts one after another -/

namespace Policy

variable {μ ν : Type}

/-- The answers to conflicts that are decided one after another. -/
def answers (policy : Policy μ) : List Conflict → μ → List (Except Problem Nat)
  | [], _ => []
  | conflict :: rest, memory =>
    let decision := policy.decide conflict memory
    decision.answer :: policy.answers rest decision.memory

/-- As long as `rel` holds for what they remember, the policies answer the same, and `rel`
holds again. -/
def DecidesLike (first : Policy μ) (second : Policy ν) (rel : μ → ν → Prop) : Prop :=
  ∀ conflict memory memory', rel memory memory' →
    (second.decide conflict memory').answer = (first.decide conflict memory).answer ∧
      rel (first.decide conflict memory).memory (second.decide conflict memory').memory

theorem DecidesLike.refl (policy : Policy μ) : policy.DecidesLike policy Eq := by
  rintro conflict memory _ rfl
  exact ⟨rfl, rfl⟩

theorem DecidesLike.answers {first : Policy μ} {second : Policy ν} {rel : μ → ν → Prop}
    (h : first.DecidesLike second rel) (conflicts : List Conflict) :
    ∀ memory memory', rel memory memory' →
      second.answers conflicts memory' = first.answers conflicts memory := by
  induction conflicts with
  | nil =>
    intro _ _ _
    rfl
  | cons conflict rest ih =>
    intro memory memory' hrel
    obtain ⟨hanswer, hrel'⟩ := h conflict memory memory' hrel
    unfold Policy.answers
    simp only
    rw [hanswer, ih _ _ hrel']

end Policy

/-! ## The numbers of a dialogue -/

/-- The number in a line, if there is nothing else but blanks around it. -/
def numberOf? (line : List Char) : Option Nat :=
  (Text.readNumeral Text.longLimit (Text.trim line)).toOption

/-- The numbers in lines, in order. Other lines are left out. -/
def numbersOf (lines : List (List Char)) : List Nat := lines.filterMap numberOf?

/-- The numbers that someone says who says `text`. -/
def numbersIn (text : String) : List Nat := numbersOf (Text.lines text.toList)

theorem numbersOf_cons_of_error {line : List Char} {fault : Text.NumeralFault}
    (h : Text.readNumeral Text.longLimit (Text.trim line) = .error fault)
    (rest : List (List Char)) : numbersOf (line :: rest) = numbersOf rest := by
  have hnone : numberOf? line = none := by
    unfold numberOf?
    rw [h]
    rfl
  exact List.filterMap_cons_none hnone

theorem numbersOf_cons_of_ok {line : List Char} {choice : Nat}
    (h : Text.readNumeral Text.longLimit (Text.trim line) = .ok choice)
    (rest : List (List Char)) : numbersOf (line :: rest) = choice :: numbersOf rest := by
  have hsome : numberOf? line = some choice := by
    unfold numberOf?
    rw [h]
    rfl
  exact List.filterMap_cons_some hsome

/-- Lines are asked until the choice that the list of their numbers gives, and no further. -/
theorem askChoice_numbersOf (conflict : Conflict) (lines : List (List Char)) :
    ∀ shown, (takeChoice conflict (numbersOf lines)).answer =
        (askChoice conflict shown lines).answer ∧
      (takeChoice conflict (numbersOf lines)).memory =
        numbersOf (askChoice conflict shown lines).memory.lines := by
  induction lines with
  | nil =>
    intro shown
    exact ⟨rfl, rfl⟩
  | cons line rest ih =>
    intro shown
    unfold askChoice
    simp only
    rcases hn : Text.readNumeral Text.longLimit (Text.trim line) with fault | choice
    · rw [numbersOf_cons_of_error hn]
      exact ih _
    · rw [numbersOf_cons_of_ok hn]
      rcases hp : conflict.place? choice with _ | place
      · simp only [takeChoice, hp]
        exact ih _
      · simp only [takeChoice, hp, and_self]

theorem Policy.script_decidesLike_prompt :
    Policy.prompt.DecidesLike Policy.script fun talk choices => choices = numbersOf talk.lines := by
  rintro conflict talk _ rfl
  exact askChoice_numbersOf conflict talk.lines _

/-! ## States that differ in their reports -/

namespace Naming

/-- The states differ at most in what was reported. -/
def SameButLog (n n' : Naming) : Prop := ∃ log, n' = { n with log }

theorem blind_sameButLog : Blind SameButLog where
  resolved := by
    rintro _ _ ⟨log, rfl⟩
    rfl
  allocator := by
    rintro _ _ ⟨log, rfl⟩
    rfl
  name := by
    rintro _ _ ⟨log, rfl⟩ _
    exact ⟨log, rfl⟩
  number := by
    rintro _ _ ⟨log, rfl⟩ _
    exact ⟨log, rfl⟩
  rename := by
    rintro _ _ ⟨log, rfl⟩
    exact ⟨log, rfl⟩
  count := by
    rintro _ _ ⟨log, rfl⟩ _ _
    exact ⟨log, rfl⟩
  report := by
    rintro _ _ ⟨log, rfl⟩ _ log'
    exact ⟨log', rfl⟩

variable {μ ν : Type} {rel : μ → ν → Prop} {first : Policy μ} {second : Policy ν}

theorem parallel_finish (h : first.DecidesLike second rel) (pending : Pending) :
    Step.Parallel (Beside SameButLog rel) (finish first pending) (finish second pending) := by
  rintro ⟨n, memory⟩ ⟨_, memory'⟩ ⟨⟨log, rfl⟩, hrel⟩
  obtain ⟨hanswer, hmemory⟩ := h pending.conflict memory memory' hrel
  rw [exec_finish, exec_finish, hanswer]
  rcases (first.decide pending.conflict memory).answer with problem | place
  · exact ⟨rfl, ⟨_, rfl⟩, hmemory⟩
  · have hnoted : ∀ log' log'',
        (n.decidedWith log').SameButLog (Naming.decidedWith { n with log } log'') :=
      fun _ log'' => ⟨log'', rfl⟩
    obtain ⟨hname, hnaming⟩ :=
      respects_complete blind_sameButLog pending place _ _ (hnoted _ _)
    exact ⟨hname, hnaming, hmemory⟩

theorem parallel_resolve (h : first.DecidesLike second rel) (l : Lineage) (c : ClassId)
    (m : MethodId) :
    Step.Parallel (Beside SameButLog rel) (resolve l first c m) (resolve l second c m) := by
  rw [resolve_eq, resolve_eq]
  apply (parallel_onFirst (respects_begin blind_sameButLog)).bind
  rintro (name | pending)
  · exact .pure name
  · exact parallel_finish h pending

end Naming

/-! ## Runs in parallel -/

namespace Session

open Naming

variable {μ ν : Type} {R : Naming → Naming → Prop} {rel : μ → ν → Prop} {first : Policy μ}
  {second : Policy ν} (settings : Settings) (l : Lineage) (c : ClassId)

section Blind

variable (hR : Blind R)

include hR

theorem respects_count {f : Tally → Tally} (hf : ∀ t, (f t).decided = t.decided) :
    Step.Respects R (count f) :=
  .modify fun _ _ h => hR.count h f hf

/-- A name that cannot stay is counted. -/
theorem respects_replaced {α : Type} (stale : String) (symbol : Symbol) (category : Category)
    (f : String → α) :
    Step.Respects R (replace stale symbol category >>= fun name =>
      (modify fun n => { n with tally := { n.tally with renamed := n.tally.renamed + 1 } }) >>=
        fun _ => pure (f name)) := by
  have hcount : Step.Respects R
      (count fun t => { t with renamed := t.renamed + 1 }) := respects_count hR fun _ => rfl
  exact (respects_replace hR stale symbol category).bind fun _ => hcount.bind fun _ => .pure _

theorem respects_classTarget (around : String) :
    Step.Respects R (classTarget settings l c around) := by
  unfold classTarget
  simp only
  split
  · exact .pure _
  split
  · exact (respects_allocate hR _ _).bind fun _ => .pure _
  split
  · exact .pure _
  · exact respects_replaced hR _ _ _ _

theorem respects_newFieldName (f : FieldId) : Step.Respects R (newFieldName l f) := by
  unfold newFieldName fieldName
  split
  · simp only
    split
    · exact respects_allocate hR _ _
    split
    · exact .pure _
    · exact respects_replaced hR _ _ _ _
  · exact .pure _

theorem respects_fieldRecord (owner : String) (f : FieldId) :
    Step.Respects R (fieldRecord l owner f) := by
  rw [fieldRecord_eq]
  apply (respects_newFieldName l hR f).bind
  intro name
  exact .bind (respects_count hR fun _ => rfl) fun _ => .pure _

end Blind

theorem parallel_count {f : Tally → Tally} (hf : ∀ t, (f t).decided = t.decided) :
    Step.Parallel (Beside SameButLog rel) (count f).onFirst (count f).onFirst :=
  parallel_onFirst (respects_count blind_sameButLog hf)

theorem parallel_methodRecord (h : first.DecidesLike second rel) (m : MethodId) :
    Step.Parallel (Beside SameButLog rel) (methodRecord l first c m)
      (methodRecord l second c m) := by
  have hname : Step.Parallel (Beside SameButLog rel) (newMethodName l first c m)
      (newMethodName l second c m) := by
    unfold newMethodName
    split
    · exact parallel_resolve h l c m
    · exact .pure _
  rw [methodRecord_eq, methodRecord_eq]
  apply hname.bind
  intro name
  exact .bind (parallel_count fun _ => rfl) fun _ => .pure _

theorem parallel_classRecords (h : first.DecidesLike second rel) (target : String) :
    Step.Parallel (Beside SameButLog rel) (classRecords settings l first c target)
      (classRecords settings l second c target) := by
  rcases hi : settings.isIncluded (l.graph.className c) with _ | _
  · rw [classRecords_of_not_included _ _ _ _ _ hi, classRecords_of_not_included _ _ _ _ _ hi]
    exact .pure _
  · rw [classRecords_eq _ _ _ _ _ hi, classRecords_eq _ _ _ _ _ hi]
    refine .bind (parallel_count fun _ => rfl) ?_
    intro _
    apply (Step.Parallel.mapM
      (fun f => parallel_onFirst (respects_fieldRecord l blind_sameButLog _ f)) _).bind
    intro fields
    apply (Step.Parallel.mapM (fun m => parallel_methodRecord l c h m) _).bind
    intro methods
    exact .pure _

theorem parallel_records (h : first.DecidesLike second rel) (classes : List ClassId) :
    ∀ targets, Step.Parallel (Beside SameButLog rel) (records settings l first targets classes)
      (records settings l second targets classes) := by
  induction classes with
  | nil =>
    intro _
    exact .pure _
  | cons c rest ih =>
    intro targets
    unfold records
    apply (parallel_onFirst (respects_classTarget settings l c blind_sameButLog _)).bind
    intro target
    apply (parallel_classRecords settings l c h _).bind
    intro here
    exact (ih _).bind fun _ => .pure _

theorem parallel_allRecords (h : first.DecidesLike second rel) :
    Step.Parallel (Beside SameButLog rel) (allRecords settings l first)
      (allRecords settings l second) := by
  unfold allRecords
  simp only
  split
  · apply (parallel_onFirst (respects_report blind_sameButLog _)).bind
    intro _
    exact parallel_records settings l h _ _
  · exact parallel_records settings l h _ _

/-- The sessions differ at most in what was reported. -/
protected def SameButLog (s s' : Session) : Prop := ∃ log, s' = { s with naming.log := log }

/-- Policies that decide alike give the same outcome, whatever was reported before. -/
theorem generate_congr (h : first.DecidesLike second rel) {s s' : Session}
    (hs : s.SameButLog s') {memory : μ} {memory' : ν} (hrel : rel memory memory') :
    (s'.generate second memory').1 = (s.generate first memory).1 := by
  obtain ⟨log', rfl⟩ := hs
  have hstart : Beside SameButLog rel (s.naming, memory) ({ s.naming with log := log' }, memory') :=
    ⟨⟨log', rfl⟩, hrel⟩
  obtain ⟨hanswer, ⟨log, hlog⟩, -⟩ :=
    parallel_allRecords s.settings s.lineage h _ _ hstart
  rcases hx : (allRecords s.settings s.lineage first).exec (s.naming, memory) with
    ⟨answer, n, talk⟩
  rcases hy : (allRecords s.settings s.lineage second).exec
    ({ s.naming with log := log' }, memory') with ⟨answer', n', talk'⟩
  rw [hx, hy] at hanswer hlog
  obtain rfl : answer' = answer := hanswer
  obtain rfl : n' = { n with log } := hlog
  rcases answer' with problem | rs
  · rw [generate_of_exec_error hx, generate_of_exec_error hy]
  · rw [generate_of_exec hx, generate_of_exec hy]
    rfl

/-- Someone who says `text` decides conflicts as the list of the numbers in it does, each with
the same place or the same problem. For every session the outcome of a run is the same. -/
theorem dialogues_decide_like_their_numbers (text : String) :
    (∀ conflicts, Policy.prompt.answers conflicts (.ofText text) =
      Policy.script.answers conflicts (numbersIn text)) ∧
    ∀ s : Session, (s.generate .prompt (.ofText text)).1 =
      (s.generate .script (numbersIn text)).1 := by
  constructor
  · intro conflicts
    exact (Policy.script_decidesLike_prompt.answers conflicts _ _ rfl).symm
  · intro s
    exact (generate_congr Policy.script_decidesLike_prompt ⟨s.naming.log, rfl⟩ rfl).symm

end Session

end StableNames
