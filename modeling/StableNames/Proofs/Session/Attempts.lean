-- Runs that end in one of two ways. Under an invariant each step gives a
-- result if some condition holds, and else ends in a conflict. For a whole
-- run it is the condition of all methods that the run resolves, so that it
-- fails exactly if one of them does.
import StableNames.Proofs.Session.Steps

namespace StableNames.Session

variable {μ α β : Type} {I : Naming → Prop} {P Q : Prop}

/-- From a state with `I` the step leads to one with `I`. It gives a result and leaves alone
what the policy remembers if `P` holds, and ends in a conflict if not. -/
def Attempts (I : Naming → Prop) (P : Prop) (x : Step (Naming × μ) α) : Prop :=
  ∀ n memory, I n → ∃ n', I n' ∧
    ((P ∧ ∃ a, x.exec (n, memory) = (.ok a, n', memory)) ∨
      (¬P ∧ ∃ symbol names memory',
        x.exec (n, memory) = (.error (.conflict symbol names), n', memory')))

namespace Attempts

theorem pure (a : α) : Attempts I True (pure a : Step (Naming × μ) α) :=
  fun n _ hn => ⟨n, hn, .inl ⟨trivial, a, rfl⟩⟩

theorem congr {x : Step (Naming × μ) α} (h : Attempts I P x) (hPQ : P ↔ Q) : Attempts I Q x := by
  intro n memory hn
  rw [← hPQ]
  exact h n memory hn

theorem bind {x : Step (Naming × μ) α} {f : α → Step (Naming × μ) β} (hx : Attempts I P x)
    (hf : ∀ a, Attempts I Q (f a)) : Attempts I (P ∧ Q) (x >>= f) := by
  intro n memory hn
  obtain ⟨n₁, hn₁, ⟨hP, a, ha⟩ | ⟨hP, symbol, names, memory', ha⟩⟩ := hx n memory hn
  · obtain ⟨n₂, hn₂, ⟨hQ, b, hb⟩ | ⟨hQ, symbol, names, memory', hb⟩⟩ := hf a n₁ memory hn₁
    · exact ⟨n₂, hn₂, .inl ⟨⟨hP, hQ⟩, b, Step.exec_bind_eq_ok.2 ⟨a, _, ha, hb⟩⟩⟩
    · refine ⟨n₂, hn₂, .inr ⟨fun h => hQ h.2, symbol, names, memory', ?_⟩⟩
      rw [Step.exec_bind, ha]
      exact hb
  · refine ⟨n₁, hn₁, .inr ⟨fun h => hP h.1, symbol, names, memory', ?_⟩⟩
    rw [Step.exec_bind, ha]

theorem mapM {ι : Type} {f : ι → Step (Naming × μ) α} {P : ι → Prop} {is : List ι}
    (h : ∀ i ∈ is, Attempts I (P i) (f i)) : Attempts I (∀ i ∈ is, P i) (is.mapM f) := by
  induction is with
  | nil => exact (pure []).congr (by simp)
  | cons i is ih =>
    rw [List.mapM_cons, List.forall_mem_cons]
    have htail := ih fun j hj => h j (List.mem_cons_of_mem _ hj)
    apply (h i List.mem_cons_self).bind
    intro a
    refine (htail.bind fun as => pure _).congr ?_
    exact and_iff_left trivial

/-- A step on the naming alone asks nothing. -/
theorem onFirst {x : Step Naming α} (h : ∀ n, I n → ∃ a n', x.exec n = (.ok a, n') ∧ I n') :
    Attempts I True (x.onFirst : Step (Naming × μ) α) := by
  intro n memory hn
  obtain ⟨a, n', hx, hn'⟩ := h n hn
  exact ⟨n', hn', .inl ⟨trivial, a, by rw [Step.exec_onFirst, hx]⟩⟩

/-- Without a condition the step gives a result. -/
theorem exec_eq_ok {x : Step (Naming × μ) α} (h : Attempts I True x) {n : Naming} (hn : I n)
    (memory : μ) : ∃ a n', x.exec (n, memory) = (.ok a, n', memory) ∧ I n' := by
  obtain ⟨n', hn', ⟨_, a, ha⟩ | ⟨hfalse, _⟩⟩ := h n memory hn
  · exact ⟨a, n', ha, hn'⟩
  · exact absurd trivial hfalse

end Attempts

/-! ## Runs -/

/-- The method is one of those of `c` that a run resolves. -/
def Resolves (settings : Settings) (g : Graph) (c : ClassId) (m : MethodId) : Prop :=
  included settings g c = true ∧ m ∈ writtenMethods settings c g ∧
    isScrambledMethod (g.method m).name = true

/-- The invariant says nothing about how much is written, and nothing about reports. -/
structure Steady (I : Naming → Prop) : Prop where
  count : ∀ n tally, tally.renamed = n.tally.renamed → tally.decided = n.tally.decided →
    I n → I { n with tally }
  report : ∀ n log, I n → I { n with log }

/-- Under the invariant classes and fields get their names, and a method is resolved if its
condition holds. -/
structure Attemptable (I : Naming → Prop) (P : MethodId → Prop) (settings : Settings)
    (l : Lineage) (policy : Policy μ) : Prop extends Steady I where
  target : ∀ c ∈ l.graph.classIds, ∀ around n, I n →
    ∃ t n', (classTarget settings l c around).exec n = (.ok t, n') ∧ I n'
  field : ∀ c ∈ l.graph.classIds, included settings l.graph c = true →
    ∀ f ∈ writtenFields settings c l.graph, isScrambledField (l.graph.field f).name = true →
      ∀ n, I n → ∃ name n', (fieldName l f).exec n = (.ok name, n') ∧ I n'
  method : ∀ c ∈ l.graph.classIds, ∀ m, Resolves settings l.graph c m →
    Attempts I (P m) (Naming.resolve l policy c m)

namespace Attemptable

variable {P : MethodId → Prop} {settings : Settings} {l : Lineage} {policy : Policy μ}
  {c : ClassId} (h : Attemptable I P settings l policy)

include h

theorem counts {f : Tally → Tally} (hr : ∀ t, (f t).renamed = t.renamed)
    (hd : ∀ t, (f t).decided = t.decided) :
    Attempts I True ((Session.count f).onFirst : Step (Naming × μ) Unit) :=
  .onFirst fun n hn => ⟨_, _, rfl, h.count n _ (hr _) (hd _) hn⟩

theorem fieldRecord (hc : c ∈ l.graph.classIds) (hi : included settings l.graph c = true)
    {f : FieldId} (hf : f ∈ writtenFields settings c l.graph) (owner : String) :
    Attempts I True ((Session.fieldRecord l owner f).onFirst : Step (Naming × μ) Record) := by
  apply Attempts.onFirst
  intro n hn
  have hname : ∃ name n', (newFieldName l f).exec n = (.ok name, n') ∧ I n' := by
    unfold newFieldName
    split
    · rename_i hs
      exact h.field c hc hi f hf hs n hn
    · exact ⟨_, n, rfl, hn⟩
  obtain ⟨name, n', hx, hn'⟩ := hname
  rw [fieldRecord_eq]
  exact ⟨_, _, Step.exec_bind_eq_ok.2 ⟨name, n', hx, rfl⟩, h.count n' _ rfl rfl hn'⟩

theorem methodRecord (hc : c ∈ l.graph.classIds) (hi : included settings l.graph c = true)
    {m : MethodId} (hm : m ∈ writtenMethods settings c l.graph) :
    Attempts I (isScrambledMethod (l.graph.method m).name = true → P m)
      (Session.methodRecord l policy c m) := by
  have hname : Attempts I (isScrambledMethod (l.graph.method m).name = true → P m)
      (newMethodName l policy c m) := by
    unfold newMethodName
    rcases hs : isScrambledMethod (l.graph.method m).name with _ | _
    · exact (Attempts.pure _).congr (by simp)
    · exact (h.method c hc m ⟨hi, hm, hs⟩).congr (by simp)
  have hcount := h.counts (f := fun t => { t with methods := t.methods + 1 }) (fun _ => rfl)
    (fun _ => rfl)
  rw [methodRecord_eq]
  refine (hname.bind fun _ => hcount.bind fun _ => .pure _).congr ?_
  simp

theorem classRecords (hc : c ∈ l.graph.classIds) (target : String) :
    Attempts I (∀ m, Resolves settings l.graph c m → P m)
      (Session.classRecords settings l policy c target) := by
  rcases hi : included settings l.graph c with _ | _
  · rw [classRecords_of_not_included _ _ _ _ _ hi]
    refine (Attempts.pure _).congr (iff_of_true trivial ?_)
    intro m hm
    rw [hm.1] at hi
    cases hi
  · have hcount := h.counts (f := fun t => { t with classes := t.classes + 1 }) (fun _ => rfl)
      (fun _ => rfl)
    have hfields := Attempts.mapM fun f hf => h.fieldRecord hc hi hf (l.graph.className c)
    have hmethods := Attempts.mapM fun m hm => h.methodRecord hc hi hm
    rw [classRecords_eq _ _ _ _ _ hi]
    refine (hcount.bind fun _ => hfields.bind fun _ => hmethods.bind fun _ => .pure _).congr ?_
    simp only [implies_true, and_true, true_and, Resolves, hi, and_imp]

theorem records {classes : List ClassId} (hsub : ∀ c ∈ classes, c ∈ l.graph.classIds)
    (targets : List String) :
    Attempts I (∀ c ∈ classes, ∀ m, Resolves settings l.graph c m → P m)
      (Session.records settings l policy targets classes) := by
  induction classes generalizing targets with
  | nil => exact (Attempts.pure _).congr (by simp)
  | cons c rest ih =>
    have hc := hsub c List.mem_cons_self
    have hrest := ih fun d hd => hsub d (List.mem_cons_of_mem _ hd)
    unfold Session.records
    refine ((Attempts.onFirst (h.target c hc _)).bind fun t => (h.classRecords hc t.full).bind
      fun _ => (hrest _).bind fun _ => .pure _).congr ?_
    rw [List.forall_mem_cons]
    simp only [true_and, and_true]

theorem allRecords :
    Attempts I (∀ c ∈ l.graph.classIds, ∀ m, Resolves settings l.graph c m → P m)
      (Session.allRecords settings l policy) := by
  have hrecords := h.records (fun _ hc => hc) []
  unfold Session.allRecords
  simp only
  split
  · refine (Attempts.bind (.onFirst ?_) fun _ => hrecords).congr (and_iff_right trivial)
    intro n hn
    exact ⟨_, _, Step.exec_modify _ n, h.report n _ hn⟩
  · exact hrecords

end Attemptable

end StableNames.Session
