-- Runs that go on after a failed one. A run that ends in a conflict leaves
-- what it named in the session, and the next run goes on from there: with
-- its own choices it ends as one run with all the choices does.
import StableNames.Proofs.Naming.Resumable

namespace StableNames

namespace Session

open Naming

/-! ## Runs are resumable -/

variable (settings : Settings) (l : Lineage) (c : ClassId)

theorem repeatable_count {f : Tally → Tally} (hf : ∀ t, (f t).decided = t.decided) :
    Repeatable (count f) :=
  .modify (fun _ => rfl) (fun _ => rfl) fun _ => hf _

/-- A count of names that could not stay. -/
theorem repeatable_renamed :
    Repeatable (modify fun n =>
      { n with tally := { n.tally with renamed := n.tally.renamed + 1 } }) :=
  .modify (fun _ => rfl) (fun _ => rfl) fun _ => rfl

theorem repeatable_classTarget (around : String) :
    Repeatable (classTarget settings l c around) := by
  unfold classTarget
  simp only
  split
  · exact .pure _
  split
  · exact (repeatable_allocate _ _).bind fun _ => .pure _
  split
  · exact .pure _
  · apply (repeatable_replace _ _ _).bind
    intro name
    exact repeatable_renamed.bind fun _ => .pure _

theorem repeatable_newFieldName (f : FieldId) : Repeatable (newFieldName l f) := by
  unfold newFieldName fieldName
  split
  · simp only
    split
    · exact repeatable_allocate _ _
    split
    · exact .pure _
    · apply (repeatable_replace _ _ _).bind
      intro name
      exact repeatable_renamed.bind fun _ => .pure _
  · exact .pure _

theorem repeatable_fieldRecord (owner : String) (f : FieldId) :
    Repeatable (fieldRecord l owner f) := by
  rw [fieldRecord_eq]
  apply (repeatable_newFieldName l f).bind
  intro name
  exact .bind (repeatable_count fun _ => rfl) fun _ => .pure _

theorem resumable_methodRecord (m : MethodId) :
    Resumable fun _ policy => methodRecord l policy c m := by
  simp only [methodRecord_eq]
  have hname : Resumable fun _ policy => newMethodName l policy c m := by
    unfold newMethodName
    split
    · exact resumable_resolve l c m
    · exact .pure _
  apply hname.bind
  intro name
  exact .bind (repeatable_count fun _ => rfl) fun _ => .pure _

theorem resumable_classRecords (target : String) :
    Resumable fun _ policy => classRecords settings l policy c target := by
  rcases h : settings.isIncluded (l.graph.className c) with _ | _
  · simp only [classRecords_of_not_included _ _ _ _ _ h]
    exact .pure _
  · simp only [classRecords_eq _ _ _ _ _ h]
    refine .bind (repeatable_count fun _ => rfl) fun _ => ?_
    refine .bind (.mapM fun f _ => repeatable_fieldRecord l _ f) fun fields => ?_
    exact .bind (.mapM fun m _ => resumable_methodRecord l c m) fun methods => .pure _

theorem resumable_records (targets : List String) (classes : List ClassId) :
    Resumable fun _ policy => records settings l policy targets classes := by
  induction classes generalizing targets with
  | nil => exact .pure _
  | cons c rest ih =>
    unfold records
    refine .bind (repeatable_classTarget settings l c _) fun target => ?_
    refine .bind (resumable_classRecords settings l c _) fun here => ?_
    exact .bind (ih _) fun _ => .pure _

theorem resumable_allRecords : Resumable fun _ policy => allRecords settings l policy := by
  unfold allRecords
  simp only
  split
  · exact .bind (repeatable_report _) fun _ => resumable_records settings l _ _
  · exact resumable_records settings l _ _

end Session

/-- What a run gives, apart from what was counted in all runs of its session. -/
def Generated.essence (g : Generated) : String × Counters × Nat × Nat :=
  (g.text, g.counters, g.freshNames, g.stats.decided)

/-! ## Two runs and one -/

namespace Session

open Naming

theorem essence_result_congr {n n' : Naming} (h : n.Alike n') (rs : List Record) :
    (result n' rs).essence = (result n rs).essence := by
  unfold result Generated.essence
  simp only
  rw [h.allocator, h.decided]

/-- However the first run ends, the second one ends as a run with the joint answers does. -/
theorem essence_generate_twice {μ ν : Type} {first : Policy μ} {second : Policy ν} {later : ν}
    {joint : μ → ν → Prop} (hgo : first.GoesOn second later joint) (s : Session) {memory : μ}
    {both : ν} (hjoint : joint memory both) :
    ((s.generate first memory).2.1.generate second later).1.map Generated.essence =
      (s.generate second both).1.map Generated.essence := by
  have hresume := resumable_allRecords s.settings s.lineage
  have hstart : Abreast joint (s.naming, memory) (s.naming, both) := ⟨.refl _, hjoint⟩
  rcases hrun : (allRecords s.settings s.lineage first).exec (s.naming, memory) with
    ⟨problem | rs, n, memory'⟩
  · -- the joint run fails or goes on where the first run was stopped
    obtain ⟨hanswer, hnaming, -⟩ := hresume.resumes hgo _ _ hstart _ _ hrun n (.refl n)
    rw [generate_of_exec_error hrun]
    rcases hboth : (allRecords s.settings s.lineage second).exec (s.naming, both) with
      ⟨answer, n₂, both'⟩
    rcases hlater : (allRecords s.settings s.lineage second).exec (n, later) with
      ⟨answer', n₁, later'⟩
    rw [hboth, hlater] at hanswer hnaming
    obtain rfl : answer' = answer := hanswer
    rcases answer' with problem' | rs
    · rw [generate_of_exec_error hboth, generate_of_exec_error (s := { s with naming := n }) hlater]
    · rw [generate_of_exec hboth, generate_of_exec (s := { s with naming := n }) hlater]
      exact congrArg Except.ok (essence_result_congr hnaming rs)
  · -- all was named in the first run, and the second one finds it
    obtain ⟨⟨n₂, both'⟩, hboth, halike⟩ := hresume.goes_on hgo _ _ hstart _ _ hrun
    obtain ⟨n₁, hagain, halike'⟩ := hresume.again _ _ _ _ hrun n (.refl n) second later
    rw [generate_of_exec hrun, generate_of_exec hboth,
      generate_of_exec (s := { s with naming := n }) hagain]
    exact congrArg Except.ok (essence_result_congr (halike.1.symm.trans halike') rs)

/-- A run that follows another run of its session, whether that failed or not, gives the text,
the counters and the number of fresh names and of decisions, or the error, that one run with
all the choices gives. So it does after a run that refused all conflicts. -/
theorem runs_go_on_after_a_conflict (s : Session) (earlier later : List Nat) :
    ((s.generate .script earlier).2.1.generate .script later).1.map Generated.essence =
        (s.generate .script (earlier ++ later)).1.map Generated.essence ∧
      ((s.generate .fail ()).2.1.generate .script later).1.map Generated.essence =
        (s.generate .script later).1.map Generated.essence :=
  ⟨essence_generate_twice (Policy.script_goesOn later) s rfl,
    essence_generate_twice (Policy.fail_goesOn .script later) s rfl⟩

end Session

end StableNames
