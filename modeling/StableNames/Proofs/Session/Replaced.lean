-- Names that made way for numbers. A class, a field or a family of methods
-- whose only earlier name lacks the marker gets a number in its place. The
-- number of a family is that of the member that was named first, so that
-- the numbers say which families there are, however many runs it took.
import StableNames.Proofs.Naming.Verdicts
import StableNames.Proofs.Session.FirstNumbers

namespace StableNames

open Naming

/-- If one item more has the property, then the list has one more with it. -/
theorem countP_eq_succ {α : Type} {p q : α → Bool} {x : α} {xs : List α} (hnodup : xs.Nodup)
    (hx : x ∈ xs) (hp : p x = false) (hq : q x = true) (hothers : ∀ y, y ≠ x → q y = p y) :
    xs.countP q = xs.countP p + 1 := by
  induction xs with
  | nil => cases hx
  | cons y xs ih =>
    obtain ⟨hy, hnodup⟩ := List.nodup_cons.1 hnodup
    rw [List.countP_cons, List.countP_cons]
    rcases List.mem_cons.1 hx with rfl | hx
    · have hsame : xs.countP q = xs.countP p :=
        List.countP_congr fun z hz => by rw [hothers z fun h => hy (h ▸ hz)]
      rw [hp, hq, hsame]
      rfl
    · have hne : y ≠ x := fun h => hy (h ▸ hx)
      rw [ih hnodup hx, hothers y hne]
      omega

/-! ## Symbols of a walk -/

namespace Session

variable {settings : Settings} {g : Graph} {s : Symbol} {c : ClassId}

/-- The class that a symbol is written with. -/
def homeOf (g : Graph) : Symbol → ClassId
  | .ofClass c => c
  | .ofField f => (g.field f).owner
  | .ofMethod m => (g.method m).owner

theorem homeOf_eq (hg : g.Coherent)
    (hs : s ∈ classSymbols settings g c ++ memberSymbols settings g c) : homeOf g s = c := by
  rcases List.mem_append.1 hs with hs | hs
  · obtain ⟨_, rfl⟩ := mem_classSymbols.1 hs
    rfl
  · rcases (mem_memberSymbols.1 hs).2 with ⟨f, hf, _, rfl⟩ | ⟨m, hm, _, rfl⟩
    · exact ((mem_writtenFields hg).1 hf).2.2
    · exact ((mem_writtenMethods hg).1 hm).2.2.1

theorem fieldSymbols_eq (g : Graph) (fs : List FieldId) :
    fs.flatMap (fieldSymbols g) =
      (fs.filter fun f => isScrambledField (g.field f).name).map .ofField := by
  induction fs with
  | nil => rfl
  | cons f fs ih =>
    rw [List.flatMap_cons, List.filter_cons, ih, fieldSymbols]
    split <;> rfl

theorem methodSymbols_eq (g : Graph) (ms : List MethodId) :
    ms.flatMap (methodSymbols g) =
      (ms.filter fun m => isScrambledMethod (g.method m).name).map .ofMethod := by
  induction ms with
  | nil => rfl
  | cons m ms ih =>
    rw [List.flatMap_cons, List.filter_cons, ih, methodSymbols]
    split <;> rfl

theorem nodup_memberSymbols {outline : List (Option ClassId × ClassDecl)} (hb : g.Built outline)
    (settings : Settings) (c : ClassId) : (memberSymbols settings g c).Nodup := by
  have hfields : (writtenFields settings c g).Nodup := by
    unfold writtenFields
    split
    · exact hb.nodup_fields c
    · exact List.nodup_nil
  have hmethods : (writtenMethods settings c g).Nodup := by
    unfold writtenMethods
    split
    · exact (hb.nodup_methods c).filter _
    · exact List.nodup_nil
  unfold memberSymbols
  split
  · rw [fieldSymbols_eq, methodSymbols_eq, List.nodup_append]
    refine ⟨(hfields.filter _).map fun _ _ h => Symbol.ofField.inj h,
      (hmethods.filter _).map fun _ _ h => Symbol.ofMethod.inj h, ?_⟩
    intro s hs t ht heq
    obtain ⟨f, _, rfl⟩ := List.mem_map.1 hs
    obtain ⟨m, _, rfl⟩ := List.mem_map.1 ht
    cases heq
  · exact List.nodup_nil

/-- A run comes to each symbol once. -/
theorem nodup_walk {source : String} {doc : Document} (hload : Graph.ofDocument source doc = .ok g)
    (settings : Settings) : (walk settings g).Nodup := by
  have hg := Graph.coherent_of_ofDocument hload
  unfold walk
  rw [List.nodup_flatMap]
  constructor
  · intro c _
    rw [List.nodup_append]
    refine ⟨?_, nodup_memberSymbols (Graph.built_of_ofDocument hload) settings c, ?_⟩
    · unfold classSymbols
      split
      · exact List.nodup_nil
      · exact List.nodup_singleton _
    · intro s hs t ht heq
      obtain ⟨_, rfl⟩ := mem_classSymbols.1 hs
      rcases (mem_memberSymbols.1 ht).2 with ⟨f, _, _, rfl⟩ | ⟨m, _, _, rfl⟩ <;> cases heq
  · have hclasses : g.classIds.Nodup := List.nodup_range
    refine hclasses.imp ?_
    intro c d hne s hs hs'
    exact hne ((homeOf_eq hg hs).symm.trans (homeOf_eq hg hs'))

theorem lt_of_mem_walk (hg : g.Coherent) {m : MethodId} (h : .ofMethod m ∈ walk settings g) :
    m < g.methodCount := by
  obtain ⟨_, _, _, hwritten, _⟩ := mem_walk_ofMethod.1 h
  exact ((mem_writtenMethods hg).1 hwritten).2.1

end Session

/-! ## Stale names -/

/-- A name is known, and it lacks the marker. -/
def Category.disowns (category : Category) (known? : Option String) : Bool :=
  known?.any fun name => !category.owns name

/-- A family with this verdict loses its name. -/
def Verdict.isStale : Verdict → Bool
  | .stale _ => true
  | _ => false

namespace Lineage

variable {l : Lineage} {n n' : Naming} {m k : MethodId} {s : Symbol}

/-- The only earlier name of the symbol, or of the family of the method, lacks the marker. -/
def isStale (l : Lineage) : Symbol → Bool
  | .ofClass c => Category.ofClass.disowns (l.knownPart? c)
  | .ofField f => Category.ofField.disowns (l.knownField? f)
  | .ofMethod m => (l.verdict (l.graph.method m).owner m).isStale

/-- The symbol has a number in place of its earlier name. A method has it for its family. -/
def isReplaced (l : Lineage) (n : Naming) : Symbol → Bool
  | .ofMethod m =>
    l.isStale (.ofMethod m) && (n.allocator.numbers.get? (.ofMethod m)).isSome
  | s => l.isStale s

/-- The symbols whose earlier names are replaced, with one method for each family. -/
def replaced (settings : Settings) (l : Lineage) (n : Naming) : List Symbol :=
  (Session.walk settings l.graph).filter (l.isReplaced n)

/-- The method has the number of a family that lost its earlier name. -/
def headsReplaced (l : Lineage) (n : Naming) : Symbol → Bool
  | .ofMethod m => l.isReplaced n (.ofMethod m)
  | _ => false

theorem isStale_ofMethod_iff :
    l.isStale (.ofMethod m) = true ↔ ∃ candidate,
      l.candidates (l.graph.method m).owner m = [candidate] ∧
        Category.ofMethod.owns candidate.name = false := by
  show (Verdict.ofNames ((l.candidates _ m).map _)).isStale = true ↔ _
  rcases l.candidates (l.graph.method m).owner m with _ | ⟨x, _ | ⟨y, rest⟩⟩
  · simp [Verdict.ofNames, Verdict.isStale]
  · rcases ho : Category.ofMethod.owns x.name with _ | _ <;>
      simp [Verdict.ofNames, Verdict.isStale, ho]
  · simp [Verdict.ofNames, Verdict.isStale]

theorem isStale_ofMethod_eq_false
    (h : ∀ candidate, l.candidates (l.graph.method m).owner m = [candidate] →
      Category.ofMethod.owns candidate.name = true) : l.isStale (.ofMethod m) = false := by
  rw [← Bool.not_eq_true, isStale_ofMethod_iff]
  rintro ⟨candidate, heq, ho⟩
  rw [h candidate heq] at ho
  cases ho

theorem isReplaced_ofMethod_iff :
    l.isReplaced n (.ofMethod m) = true ↔ l.isStale (.ofMethod m) = true ∧
      ∃ e, n.allocator.numbers.get? (.ofMethod m) = some e := by
  unfold isReplaced
  rw [Bool.and_eq_true, Option.isSome_iff_exists]

theorem headsReplaced_congr
    (h : n'.allocator.numbers.get? (.ofMethod m) = n.allocator.numbers.get? (.ofMethod m)) :
    l.headsReplaced n' (.ofMethod m) = l.headsReplaced n (.ofMethod m) := by
  unfold headsReplaced isReplaced
  simp only [h]

/-- Only numbers of methods tell which families are replaced. -/
theorem countP_headsReplaced_congr
    (h : ∀ m, n'.allocator.numbers.get? (.ofMethod m) = n.allocator.numbers.get? (.ofMethod m))
    (symbols : List Symbol) :
    symbols.countP (l.headsReplaced n') = symbols.countP (l.headsReplaced n) := by
  apply List.countP_congr
  intro s _
  cases s with
  | ofMethod m => rw [headsReplaced_congr (h m)]
  | _ => rfl

/-- A number for one method more counts if its family loses a name. -/
theorem countP_headsReplaced_of_number {symbols : List Symbol} {e : Category × Nat}
    (hnodup : symbols.Nodup) (hm : .ofMethod m ∈ symbols)
    (hnone : n.allocator.numbers.get? (.ofMethod m) = none)
    (hsome : n'.allocator.numbers.get? (.ofMethod m) = some e)
    (hother : ∀ k, k ≠ m →
      n'.allocator.numbers.get? (.ofMethod k) = n.allocator.numbers.get? (.ofMethod k)) :
    symbols.countP (l.headsReplaced n') =
      symbols.countP (l.headsReplaced n) + if l.isStale (.ofMethod m) then 1 else 0 := by
  have hsame : ∀ s, s ≠ .ofMethod m → l.headsReplaced n' s = l.headsReplaced n s := by
    intro s hs
    cases s with
    | ofMethod k => exact headsReplaced_congr (hother k fun heq => hs (heq ▸ rfl))
    | _ => rfl
  rcases hstale : l.isStale (.ofMethod m) with _ | _
  · rw [if_neg Bool.false_ne_true, Nat.add_zero]
    apply List.countP_congr
    intro s _
    by_cases hs : s = .ofMethod m
    · subst hs
      simp [headsReplaced, isReplaced, hstale]
    · rw [hsame s hs]
  · rw [if_pos rfl]
    refine countP_eq_succ hnodup hm ?_ (isReplaced_ofMethod_iff.2 ⟨hstale, _, hsome⟩) hsame
    simp [headsReplaced, isReplaced, hnone]

/-- All methods of a family have a stale name, or none has. -/
theorem isStale_congr (hg : l.graph.Coherent) (hs : l.graph.SignaturesApart)
    (hm : m < l.graph.methodCount) (hk : k ∈ familyOf l.graph m) :
    l.isStale (.ofMethod k) = l.isStale (.ofMethod m) := by
  show (Verdict.ofNames _).isStale = (Verdict.ofNames _).isStale
  rw [candidateNames_congr hg hs hm hk]

end Lineage

/-! ## Numbers of families -/

/-- What all runs of a session keep: numbers are of the right categories, a method that has one
was named after it on a walk, and the count of families that lost a name is that of the numbers
that took its place. No family has two numbers, and one that lost its name has one. -/
structure Naming.Tracks (settings : Settings) (l : Lineage) (n : Naming) : Prop where
  sorted : n.allocator.Sorted
  number : ∀ m category k, n.allocator.numbers.get? (.ofMethod m) = some (category, k) →
    n.resolved.get? m = some (category.name k) ∧ .ofMethod m ∈ Session.walk settings l.graph
  renamed : n.renamed = (Session.walk settings l.graph).countP (l.headsReplaced n)
  alone : l.graph.SignaturesApart → ∀ m k e e', k ∈ familyOf l.graph m →
    n.allocator.numbers.get? (.ofMethod m) = some e →
      n.allocator.numbers.get? (.ofMethod k) = some e' → k = m
  settled : l.graph.SignaturesApart → ∀ m < l.graph.methodCount, ∀ name,
    n.resolved.get? m = some name → l.isStale (.ofMethod m) = true →
      ∃ k ∈ familyOf l.graph m, ∃ e, n.allocator.numbers.get? (.ofMethod k) = some e

namespace Naming.Tracks

variable {μ : Type} {settings : Settings} {l : Lineage} {policy : Policy μ} {n n' : Naming}
  {m : MethodId} {s : Symbol} {memory memory' : μ} {answer : Except Problem String}
  {name : String} {a : Allocator}

theorem start (hnumbers : n.allocator.numbers = ∅) (hresolved : n.resolved = ∅)
    (hrenamed : n.renamed = 0) : n.Tracks settings l := by
  have hnone : ∀ s, n.allocator.numbers.get? s = none := by
    intro s
    rw [hnumbers, Assoc.get?_empty]
  refine ⟨Allocator.sorted_of_numbers_eq hnumbers, ?_, ?_, ?_, ?_⟩
  · intro m category k h
    rw [hnone] at h
    cases h
  · rw [hrenamed, eq_comm, List.countP_eq_zero]
    intro s _
    unfold Lineage.headsReplaced Lineage.isReplaced
    cases s <;> simp [hnone]
  · intro _ m k e e' _ h
    rw [hnone] at h
    cases h
  · intro _ m _ name h
    rw [hresolved, Assoc.get?_empty] at h
    cases h

/-- Only names and numbers count. -/
theorem congr (h : n.Tracks settings l) (hallocator : n'.allocator = n.allocator)
    (hresolved : n'.resolved = n.resolved) (hrenamed : n'.renamed = n.renamed) :
    n'.Tracks settings l := by
  refine ⟨?_, ?_, ?_, ?_, ?_⟩
  · rw [hallocator]
    exact h.sorted
  · rw [hallocator, hresolved]
    exact h.number
  · rw [hrenamed, h.renamed, Lineage.countP_headsReplaced_congr]
    intro m
    rw [hallocator]
  · rw [hallocator]
    exact h.alone
  · rw [hallocator, hresolved]
    exact h.settled

/-- A method without a name has no number. -/
theorem number_eq_none (h : n.Tracks settings l) (hm : n.resolved.get? m = none) :
    n.allocator.numbers.get? (.ofMethod m) = none := by
  rcases he : n.allocator.numbers.get? (.ofMethod m) with _ | ⟨category, k⟩
  · rfl
  · rw [(h.number m category k he).1] at hm
    cases hm

/-- Names for methods without names leave the numbers of others as they are. -/
theorem named_withNames (h : n.Tracks settings l) {ks : List MethodId} (hu : n.Unnamed ks)
    {k : MethodId} {category : Category} {i : Nat}
    (hk : n.allocator.numbers.get? (.ofMethod k) = some (category, i)) :
    (n.withNames ks name).resolved.get? k = some (category.name i) ∧
      .ofMethod k ∈ Session.walk settings l.graph := by
  obtain ⟨hname, hwalk⟩ := h.number k category i hk
  refine ⟨?_, hwalk⟩
  rw [get?_withNames, if_neg, hname]
  intro hmem
  rw [hu k hmem] at hname
  cases hname

/-- A number for a class or a field says nothing of families. -/
theorem allocate (h : n.Tracks settings l) (hs : ∀ m, s ≠ .ofMethod m)
    (ha : n.allocator.allocate s s.category = .ok (name, a)) :
    Tracks settings l { n with allocator := a } := by
  have hget : ∀ m, a.numbers.get? (.ofMethod m) = n.allocator.numbers.get? (.ofMethod m) :=
    fun m => Allocator.get?_allocate_of_ne ha (hs m)
  obtain ⟨_, a', ha', hsorted⟩ := h.sorted.allocate s
  obtain ⟨rfl, rfl⟩ := Prod.mk.inj (Except.ok.inj (ha.symm.trans ha'))
  refine ⟨hsorted, ?_, ?_, ?_, ?_⟩
  · simp only [hget]
    exact h.number
  · exact h.renamed.trans (Lineage.countP_headsReplaced_congr hget _).symm
  · simp only [hget]
    exact h.alone
  · simp only [hget]
    exact h.settled

section Calls

variable (hg : l.graph.Coherent)

include hg

/-- A family that keeps its name, or has one chosen for it, has no number. -/
theorem withNames (h : n.Tracks settings l) (hm : m < l.graph.methodCount)
    (hu : n.Unnamed (m :: familyOf l.graph m)) (hstale : l.isStale (.ofMethod m) = false) :
    Tracks settings l (n.withNames (m :: familyOf l.graph m) name) := by
  refine ⟨h.sorted, fun _ _ _ hk => h.named_withNames hu hk, h.renamed, h.alone, ?_⟩
  intro hs k hk name' hname hkstale
  rw [get?_withNames] at hname
  split at hname
  · rename_i hmem
    have hsame : l.isStale (.ofMethod k) = l.isStale (.ofMethod m) := by
      rcases List.mem_cons.1 hmem with rfl | hmem
      · rfl
      · exact Lineage.isStale_congr hg hs hm hmem
    rw [hsame, hstale] at hkstale
    cases hkstale
  · exact h.settled hs k hk name' hname hkstale

/-- A family that has no name, or loses its name, gets a number by the method that is asked
for. -/
theorem withNumber {log : List Notice} {renamed : Nat}
    (hnodup : (Session.walk settings l.graph).Nodup) (h : n.Tracks settings l)
    (hm : m < l.graph.methodCount) (hwalk : .ofMethod m ∈ Session.walk settings l.graph)
    (hu : n.Unnamed (m :: familyOf l.graph m))
    (ha : n.allocator.allocate (.ofMethod m) .ofMethod = .ok (name, a))
    (hrenamed : renamed = n.renamed + if l.isStale (.ofMethod m) then 1 else 0) :
    Tracks settings l
      ({ n with allocator := a, log, renamed }.withNames (m :: familyOf l.graph m) name) := by
  have hnone := h.number_eq_none (hu m List.mem_cons_self)
  have hother : ∀ k, k ≠ m →
      a.numbers.get? (.ofMethod k) = n.allocator.numbers.get? (.ofMethod k) := by
    intro k hk
    exact Allocator.get?_allocate_of_ne ha fun heq => hk (Symbol.ofMethod.inj heq).symm
  obtain ⟨_, i, hi, rfl⟩ := Allocator.allocate_eq_ok ha
  -- a numbered method of the family would have a name
  have hfamily : ∀ k ∈ m :: familyOf l.graph m,
      n.allocator.numbers.get? (.ofMethod k) = none := fun k hk => h.number_eq_none (hu k hk)
  refine ⟨?sorted, ?number, ?renamed, ?alone, ?settled⟩
  case sorted =>
    obtain ⟨_, a', ha', hsorted⟩ := h.sorted.allocate (.ofMethod m)
    obtain ⟨_, rfl⟩ := Prod.mk.inj (Except.ok.inj (ha.symm.trans ha'))
    exact hsorted
  case number =>
    intro k category j hk
    by_cases hkm : k = m
    · subst hkm
      obtain ⟨rfl, rfl⟩ := Prod.mk.inj (Option.some.inj (hi.symm.trans hk))
      rw [get?_withNames]
      exact ⟨if_pos List.mem_cons_self, hwalk⟩
    · exact h.named_withNames hu ((hother k hkm).symm.trans hk)
  case renamed =>
    rw [hrenamed, h.renamed]
    exact (Lineage.countP_headsReplaced_of_number hnodup hwalk hnone hi hother).symm
  case alone =>
    intro hs p k e e' hkp hp hk
    by_cases hpm : p = m
    · subst hpm
      by_contra hkm
      have hk' := (hother k hkm).symm.trans hk
      rw [hfamily k (List.mem_cons_of_mem _ hkp)] at hk'
      cases hk'
    · have hp' := (hother p hpm).symm.trans hp
      by_cases hkm : k = m
      · subst hkm
        have hplt := Session.lt_of_mem_walk hg (h.number _ _ _ hp').2
        have hpk := mem_familyOf_symm hg hs.keysDistinct hplt hkp
        rw [hfamily p (List.mem_cons_of_mem _ hpk)] at hp'
        cases hp'
      · exact h.alone hs p k e e' hkp hp' ((hother k hkm).symm.trans hk)
  case settled =>
    intro hs k hk name' hname hkstale
    rw [get?_withNames] at hname
    split at hname
    · rename_i hmem
      refine ⟨m, ?_, _, hi⟩
      rcases List.mem_cons.1 hmem with rfl | hmem
      · exact Graph.self_mem_family hg hs.keysDistinct hm
      · exact mem_familyOf_symm hg hs.keysDistinct hm hmem
    · obtain ⟨q, hq, e, he⟩ := h.settled hs k hk name' hname hkstale
      obtain ⟨e', he'⟩ : ∃ e', a.numbers.get? (.ofMethod q) = some e' := by
        by_cases hqm : q = m
        · exact ⟨_, hqm ▸ hi⟩
        · exact ⟨e, (hother q hqm).trans he⟩
      exact ⟨q, hq, e', he'⟩

/-- A call for a method of the walk keeps track of the families, also when it fails. -/
theorem call (hnodup : (Session.walk settings l.graph).Nodup) (h : n.Tracks settings l)
    (hwalk : .ofMethod m ∈ Session.walk settings l.graph)
    (hcall : Call l policy (l.graph.method m).owner m n memory answer n' memory') :
    n'.Tracks settings l := by
  have hm := Session.lt_of_mem_walk hg hwalk
  cases hcall with
  | known => exact h
  | @inherited name k hnone hk hname =>
    have hu : n.Unnamed [m] := by
      intro p hp
      rw [List.mem_singleton.1 hp, hnone]
    refine ⟨h.sorted, fun _ _ _ hp => h.named_withNames hu hp, h.renamed, h.alone, ?_⟩
    intro hs p hp name' hname' hpstale
    rw [get?_withNames] at hname'
    split at hname'
    · rename_i hpm
      obtain rfl := List.mem_singleton.1 hpm
      -- what the name was taken from is of the same family
      have hklt := ((Graph.mem_family hg hs.keysDistinct hm).1 hk).lt hg hs.keysDistinct hm
      have hkstale := (Lineage.isStale_congr hg hs hm hk).trans hpstale
      obtain ⟨q, hq, e, he⟩ := h.settled hs k hklt name hname hkstale
      exact ⟨q, (Graph.mem_family_congr hg hs.keysDistinct hm hk).1 hq, e, he⟩
    · exact h.settled hs p hp name' hname' hpstale
  | @settled candidate? _ _ hu hc hsettling =>
    cases hsettling with
    | @fresh name a ha =>
      have hno : l.isStale (.ofMethod m) = false := by
        apply Lineage.isStale_ofMethod_eq_false
        intro candidate heq
        rw [hc] at heq
        cases heq
      exact h.withNumber hg hnodup hm hwalk hu ha (by rw [hno]; rfl)
    | @adopted candidate ho =>
      apply h.withNames hg hm hu
      apply Lineage.isStale_ofMethod_eq_false
      intro _ heq
      rw [hc] at heq
      cases heq
      exact ho
    | @stale candidate name a log ho ha =>
      have hyes : l.isStale (.ofMethod m) = true :=
        Lineage.isStale_ofMethod_iff.2 ⟨candidate, hc, ho⟩
      exact h.withNumber hg hnodup hm hwalk hu ha (by rw [hyes]; rfl)
    | refused => exact h
  | undecided => exact h.congr rfl rfl rfl
  | misplaced => exact h.congr rfl rfl rfl
  | decided hu hc =>
    have hno : l.isStale (.ofMethod m) = false := by
      apply Lineage.isStale_ofMethod_eq_false
      intro candidate heq
      rw [heq] at hc
      simp at hc
    exact (h.withNames hg hm hu hno).congr rfl rfl rfl

end Calls

end Naming.Tracks

end StableNames
