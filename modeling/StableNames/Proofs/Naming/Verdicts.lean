-- Verdicts on families. A family that has no name gets a new one, keeps the
-- one it had, loses one that lacks the marker, or is a conflict. Which of
-- these it is depends on the names that its members had before and not on
-- the member that asks, whatever the stores and the old hierarchy say.
import Mathlib.Data.List.Permutation
import StableNames.Proofs.Graph.Signatures
import StableNames.Proofs.Naming.Candidates
import StableNames.Proofs.Naming.FamilyNames

namespace StableNames

open Naming

/-- What becomes of a family without a name, by the names that it had before. -/
inductive Verdict where
  | fresh
  | adopt (name : String)
  | stale (name : String)
  | conflict (names : List String)
deriving DecidableEq, Repr

def Verdict.ofNames : List String → Verdict
  | [] => .fresh
  | [name] => if Category.ofMethod.owns name then .adopt name else .stale name
  | names => .conflict names

/-- What a call for a method begins with, by the verdict on its family. -/
inductive Verdict.Begins (m : MethodId) (family : List MethodId) (n : Naming) :
    Verdict → Except Problem Resolution → Naming → Prop
  | fresh {name : String} {a : Allocator}
      (ha : n.allocator.allocate (.ofMethod m) .ofMethod = .ok (name, a)) :
      Begins m family n .fresh (.ok (.settled name))
        ({ n with allocator := a }.withNames (m :: family) name)
  | adopt {name : String} :
      Begins m family n (.adopt name) (.ok (.settled name)) (n.withNames (m :: family) name)
  | stale {old name : String} {a : Allocator} {log : List Notice}
      (ha : n.allocator.allocate (.ofMethod m) .ofMethod = .ok (name, a)) :
      Begins m family n (.stale old) (.ok (.settled name))
        ({ n with allocator := a, log, renamed := n.renamed + 1 }.withNames (m :: family) name)
  | refused {verdict : Verdict} {problem : Problem}
      (hv : verdict = .fresh ∨ ∃ old, verdict = .stale old)
      (ha : n.allocator.allocate (.ofMethod m) .ofMethod = .error problem) :
      Begins m family n verdict (.error problem) n
  | conflict {conflict : Conflict} {log : List Notice} :
      Begins m family n (.conflict conflict.names) (.ok (.pending ⟨conflict, m, family⟩))
        { n with log }

namespace Lineage

variable {l : Lineage} {c d : ClassId} {k m : MethodId} {n : Naming} {name : String}

/-- The candidate names for the family of a method of `c`. -/
def candidateNames (l : Lineage) (c : ClassId) (m : MethodId) : List String :=
  (l.candidates c m).map (·.name)

/-- The verdict on the family of a method of `c`. -/
def verdict (l : Lineage) (c : ClassId) (m : MethodId) : Verdict := .ofNames (l.candidateNames c m)

/-- A call for a method of a family without a name does what the verdict says. -/
theorem begins_verdict (hu : n.Unnamed (m :: l.graph.family c m)) :
    (l.verdict c m).Begins m (l.graph.family c m) n ((begin l c m).exec n).1
      ((begin l c m).exec n).2 := by
  have hm := hu m List.mem_cons_self
  have hf : (l.graph.family c m).findSome? n.resolved.get? = none :=
    List.findSome?_eq_none_iff.2 fun k hk => hu k (List.mem_cons_of_mem _ hk)
  rw [exec_begin_unnamed hm hf]
  unfold verdict candidateNames
  rcases hc : l.candidates c m with _ | ⟨x, _ | ⟨y, rest⟩⟩
  · have hs := settling_of_settle (m := m) (n := n) (l.graph.family c m) none
    simp only [Step.exec_map]
    generalize (settle m (l.graph.family c m) none).exec n = result at hs ⊢
    rcases result with ⟨answer, n'⟩
    cases hs with
    | fresh ha => exact .fresh ha
    | refused _ ha => exact .refused (.inl rfl) ha
  · have hs := settling_of_settle (m := m) (n := n) (l.graph.family c m) (some x)
    simp only [Step.exec_map, List.map_cons, List.map_nil, Verdict.ofNames]
    generalize (settle m (l.graph.family c m) (some x)).exec n = result at hs ⊢
    rcases result with ⟨answer, n'⟩
    cases hs with
    | adopted ho =>
      rw [if_pos ho]
      exact .adopt
    | stale ho ha =>
      rw [if_neg (by simp [ho])]
      exact .stale ha
    | refused ho ha =>
      rw [if_neg (by simp [ho x rfl])]
      exact .refused (.inr ⟨_, rfl⟩) ha
  · have hnames : Verdict.ofNames ((x :: y :: rest).map (·.name)) =
        .conflict (l.conflict c m).names := by
      unfold Lineage.conflict Conflict.names
      rw [hc]
      rfl
    rw [hnames]
    exact .conflict

/-! ## The names of the members -/

theorem candidateNames_eq (l : Lineage) (c : ClassId) (m : MethodId) :
    l.candidateNames c m = sortedSet ((l.hits c m).map (·.name)) := by
  unfold candidateNames candidates Candidate.ofHits
  rw [List.map_map]
  exact List.map_id _

theorem mem_candidateNames :
    name ∈ l.candidateNames c m ↔ ∃ hit ∈ l.hits c m, hit.name = name := by
  rw [candidateNames_eq, mem_sortedSet, List.mem_map]

/-- The names of a slot are those that its methods had. -/
theorem exists_mem_slotHits_iff (hg : l.graph.Coherent) (hs : l.graph.SignaturesApart)
    (hm : m < l.graph.methodCount) :
    (∃ hit ∈ l.slotHits (l.graph.method m).owner m, hit.name = name) ↔
      ∃ x ∈ l.graph.slotMethods (l.graph.method m).owner m,
        l.EarlierName (l.graph.methodMember x) name := by
  have hmember : ∀ x ∈ l.graph.slotMethods (l.graph.method m).owner m, l.graph.methodMember x =
      ⟨l.graph.className (l.graph.method x).owner, (l.graph.method m).name,
        (l.graph.method m).desc⟩ := by
    intro x hx
    obtain ⟨hlt, hkey, _⟩ := (Graph.mem_slotMethods hg hs.keysDistinct).1 hx
    obtain ⟨hname, hdesc⟩ := hs.eq_of_key_eq hlt hm hkey
    rw [Graph.methodMember, hname, hdesc]
  constructor
  · rintro ⟨hit, h, rfl⟩
    obtain ⟨d, hd, h⟩ := mem_slotHits.1 h
    obtain ⟨x, hx, rfl⟩ := Graph.exists_mem_slotMethods hg hs.keysDistinct hm hd
    refine ⟨x, hx, ?_⟩
    rw [hmember x hx]
    exact exists_mem_classHits_iff.1 ⟨hit, h, rfl⟩
  · rintro ⟨x, hx, h⟩
    rw [hmember x hx] at h
    obtain ⟨hit, hhit, hname⟩ := exists_mem_classHits_iff.2 h
    have hslot := ((Graph.mem_slotMethods hg hs.keysDistinct).1 hx).2.2
    exact ⟨hit, mem_slotHits.2 ⟨_, hslot, hhit⟩, hname⟩

/-- Every member of the family stands in a slot that is looked at, so the names of the slots
are those of the members. -/
theorem mem_candidateNames_iff (hg : l.graph.Coherent) (hs : l.graph.SignaturesApart)
    (hm : m < l.graph.methodCount) :
    name ∈ l.candidateNames (l.graph.method m).owner m ↔
      ∃ x ∈ familyOf l.graph m, l.EarlierName (l.graph.methodMember x) name := by
  have hk := hs.keysDistinct
  rw [mem_candidateNames]
  constructor
  · rintro ⟨hit, hhit, rfl⟩
    obtain ⟨⟨d, n⟩, hv, hslot⟩ := mem_hits.1 hhit
    obtain ⟨rfl, hn, hmn⟩ := Graph.akin_of_mem_visits hg hm hv
    obtain ⟨x, hx, h⟩ := (exists_mem_slotHits_iff hg hs hn).1 ⟨hit, hslot, rfl⟩
    exact ⟨x, (Graph.mem_family hg hk hm).2 (hmn.tail (.inl hx)), h⟩
  · rintro ⟨x, hx, h⟩
    obtain ⟨⟨d, n⟩, hv, hx⟩ := List.mem_flatMap.1 ((Graph.mem_family_iff _).1 hx)
    obtain ⟨rfl, hn, _⟩ := Graph.akin_of_mem_visits hg hm hv
    have hslot : x ∈ l.graph.slotMethods (l.graph.method n).owner n := by
      rcases List.mem_cons.1 hx with rfl | hx
      · exact Graph.self_mem_slotMethods hg hk hn
      · exact hx
    obtain ⟨hit, hhit, rfl⟩ := (exists_mem_slotHits_iff hg hs hn).2 ⟨x, hslot, h⟩
    exact ⟨hit, mem_hits.2 ⟨_, hv, hhit⟩, rfl⟩

/-- The candidate names are the same from each member of a family. -/
theorem candidateNames_congr (hg : l.graph.Coherent) (hs : l.graph.SignaturesApart)
    (hm : m < l.graph.methodCount) (hk : k ∈ familyOf l.graph m) :
    l.candidateNames (l.graph.method k).owner k = l.candidateNames (l.graph.method m).owner m := by
  have hkeys := hs.keysDistinct
  have hklt := ((Graph.mem_family hg hkeys hm).1 hk).lt hg hkeys hm
  rw [candidateNames_eq, candidateNames_eq]
  apply sortedSet_congr
  intro name
  rw [List.mem_map, List.mem_map, ← mem_candidateNames, ← mem_candidateNames,
    mem_candidateNames_iff hg hs hklt, mem_candidateNames_iff hg hs hm]
  unfold familyOf
  simp only [Graph.mem_family_congr hg hkeys hm hk]

/-- The candidate names for a method are the names that the methods of its family had before,
each by the first of the places that know one. So every member of a family has the same
candidate names and the same verdict, and while the family has no name, a call for any of them
begins with what this verdict says. -/
theorem candidate_names_depend_on_the_family {source : String} {doc : Document}
    (hload : Graph.ofDocument source doc = .ok l.graph) (hs : l.graph.SignaturesApart)
    (hm : m < l.graph.methodCount) :
    (∀ name, name ∈ l.candidateNames (l.graph.method m).owner m ↔
      ∃ x ∈ familyOf l.graph m, l.EarlierName (l.graph.methodMember x) name) ∧
    ∀ k ∈ familyOf l.graph m,
      l.candidateNames (l.graph.method k).owner k = l.candidateNames (l.graph.method m).owner m ∧
      l.verdict (l.graph.method k).owner k = l.verdict (l.graph.method m).owner m ∧
      ∀ n : Naming, n.Unnamed (familyOf l.graph m) →
        (l.verdict (l.graph.method m).owner m).Begins k (familyOf l.graph k) n
          ((begin l (l.graph.method k).owner k).exec n).1
          ((begin l (l.graph.method k).owner k).exec n).2 := by
  have hg := Graph.coherent_of_ofDocument hload
  have hkeys := hs.keysDistinct
  refine ⟨fun name => mem_candidateNames_iff hg hs hm, ?_⟩
  intro k hk
  have hnames := candidateNames_congr hg hs hm hk
  have hverdict : l.verdict (l.graph.method k).owner k = l.verdict (l.graph.method m).owner m := by
    rw [verdict, hnames, verdict]
  refine ⟨hnames, hverdict, ?_⟩
  intro n hn
  rw [← hverdict]
  apply begins_verdict
  intro x hx
  rcases List.mem_cons.1 hx with rfl | hx
  · exact hn _ hk
  · exact hn x ((Graph.mem_family_congr hg hkeys hm hk).1 hx)

/-- The two classes of the earlier version, where the method had another name. -/
def overriddenBefore : Document where
  classes := [
    { name := "p", methods := [{ name := "y", desc := "()V" }] },
    { name := "q", superName? := some "p", methods := [{ name := "y", desc := "()V" }] }]

/-- The store for the same version knows the lower method. The upper one has a match without
a name of its own, which is overridden by a method that has one. -/
def doublyNamed : Lineage where
  graph := (Graph.ofDocument "" overridden).toOption.getD {}
  old? := (Graph.ofDocument "" overriddenBefore).toOption
  chain := {
    current? := some <| .tables {
      members := .ofList [(⟨"b", "x", "()V"⟩, ⟨"b", "method_3", "()V"⟩)] }
    earlier? := some {
      toOld := .tables { members := .ofList [(⟨"a", "x", "()V"⟩, ⟨"p", "y", "()V"⟩)] }
      names := .tables { members := .ofList [(⟨"q", "y", "()V"⟩, ⟨"q", "method_7", "()V"⟩)] } } }

theorem candidateNames_doublyNamed :
    doublyNamed.candidateNames 0 0 = ["method_3", "method_7"] := by
  have hhits : doublyNamed.hits 0 0 =
      [⟨"method_7", "q<-p.x()V"⟩, ⟨"method_3", "b<-a.x()V"⟩] := by
    cbv
  rw [candidateNames_eq, hhits]
  simp [sortedSet, List.mergeSort, List.eraseDups_cons]

/-- Whichever of the two methods asks, the call begins with a conflict between both names. -/
theorem candidate_names_depend_on_the_family_doubly :
    doublyNamed.graph.SignaturesApart ∧ 0 < doublyNamed.graph.methodCount ∧
    (∃ x ∈ familyOf doublyNamed.graph 0,
      doublyNamed.EarlierName (doublyNamed.graph.methodMember x) "method_7") ∧
    ∀ k ∈ familyOf doublyNamed.graph 0,
      (Verdict.conflict ["method_3", "method_7"]).Begins k (familyOf doublyNamed.graph k) {}
        ((begin doublyNamed (doublyNamed.graph.method k).owner k).exec {}).1
        ((begin doublyNamed (doublyNamed.graph.method k).owner k).exec {}).2 := by
  have hload : Graph.ofDocument "" overridden = .ok doublyNamed.graph := rfl
  have hs : doublyNamed.graph.SignaturesApart := by decide
  have hm : 0 < doublyNamed.graph.methodCount := by decide
  have howner : (doublyNamed.graph.method 0).owner = 0 := rfl
  obtain ⟨hnames, hmembers⟩ := candidate_names_depend_on_the_family hload hs hm
  rw [howner] at hnames hmembers
  refine ⟨hs, hm, (hnames "method_7").1 (by rw [candidateNames_doublyNamed]; decide), ?_⟩
  intro k hk
  obtain ⟨_, _, hbegins⟩ := hmembers k hk
  have hverdict : doublyNamed.verdict 0 0 = .conflict ["method_3", "method_7"] := by
    rw [verdict, candidateNames_doublyNamed]
    rfl
  rw [← hverdict]
  exact hbegins {} fun x _ => Assoc.get?_empty x

end Lineage

end StableNames
