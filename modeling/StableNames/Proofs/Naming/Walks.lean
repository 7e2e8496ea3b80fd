-- Walks through a hierarchy, as loops and as climbs. The search for the
-- earlier names of a family is a loop too: a pass asks all classes of one
-- slot and goes on to what is related to it. Related methods lead back to
-- one another, so it ends only since what it has seen is marked. On every
-- graph of a document, all walks end, and a loop goes on from nothing
-- twice.
import Mathlib.Data.List.Permutation
import StableNames.Proofs.Graph.Climbing
import StableNames.Proofs.Graph.Families
import StableNames.Proofs.Naming.Candidates
import StableNames.Proofs.Reach.Passes

namespace StableNames

/-! ## The slots of a family -/

namespace Graph

variable {g : Graph} {found : List MethodId} {agenda : List (ClassId × MethodId)}

theorem not_mem_of_mem_visitsFrom {e : ClassId × MethodId} (h : e ∈ g.visitsFrom found agenda) :
    e.2 ∉ found := by
  fun_induction visitsFrom g found agenda with
  | case1 => cases h
  | case2 found c m agenda hm ih => exact ih h
  | case3 found c m agenda hm ih =>
    rcases List.mem_cons.1 h with rfl | h
    · exact (not_or.1 hm).1
    · intro hfound
      exact ih h (List.mem_append_right _ hfound)

/-- No method is visited twice. -/
theorem nodup_visitsFrom : ((g.visitsFrom found agenda).map (·.2)).Nodup := by
  fun_induction visitsFrom g found agenda with
  | case1 => exact List.nodup_nil
  | case2 found c m agenda hm ih => exact ih
  | case3 found c m agenda hm ih =>
    rw [List.map_cons, List.nodup_cons]
    refine ⟨?_, ih⟩
    intro h
    obtain ⟨e, he, rfl⟩ := List.mem_map.1 h
    exact not_mem_of_mem_visitsFrom he List.mem_cons_self

end Graph

/-! ## Asking for earlier names -/

/-- A family with one more method, unless it has it. -/
def joinTo (family : List MethodId) (m : MethodId) : List MethodId :=
  if m ∈ family then family else family ++ [m]

theorem foldl_joinTo (before ms : List MethodId) :
    ms.foldl joinTo before.eraseDups = (before ++ ms).eraseDups := by
  induction ms generalizing before with
  | nil => rw [List.append_nil, List.foldl_nil]
  | cons m ms ih =>
    have hstep : joinTo before.eraseDups m = (before ++ [m]).eraseDups := by
      rw [joinTo, List.eraseDups_append]
      by_cases h : m ∈ before <;> simp [h, List.removeAll, List.eraseDups_cons]
    rw [List.foldl_cons, hstep, ih, List.append_assoc, List.singleton_append]

/-- The state of a search for earlier names: the methods that were seen, those that are still to
go on from, each with the class that it is seen from, and what was found. -/
structure Inquiry where
  seen : Finset MethodId := ∅
  agenda : List (ClassId × MethodId)
  family : List MethodId := []
  hits : List Hit := []

namespace Lineage

variable {l : Lineage} {c : ClassId} {m : MethodId} {seen : Finset MethodId}
  {agenda : List (ClassId × MethodId)} {found family before : List MethodId} {hits : List Hit}

/-- A class of the slot of `m` is asked for its names. What it declares under the key of `m` is
in the family, and counts as seen. -/
def ask (l : Lineage) (m : MethodId) (s : Inquiry) (d : ClassId) : Inquiry :=
  let node := l.graph.method m
  let hits := s.hits ++ l.classHits node.name node.desc (suffixOf node) d
  match l.graph.methodIn? d node.key with
  | none => { s with hits }
  | some own => { s with seen := insert own s.seen, family := joinTo s.family own, hits }

/-- A pass that asks the classes of the slot of a method, unless the method was seen. What is
related to the methods of the slot is put before all else. -/
def asking (l : Lineage) (s : Inquiry) : Option (List MethodId × Inquiry) :=
  match s.agenda with
  | [] => none
  | (c, m) :: rest =>
    if m ∈ s.seen then some ([], { s with agenda := rest })
    else
      let slot := l.graph.slot c m
      let s := { s with seen := insert m s.seen, family := joinTo s.family m }
      let agenda := (slot.flatMap fun d => l.graph.relatedMethods d m) ++ rest
      some ([m], { slot.foldl (l.ask m) s with agenda })

/-- All classes of a slot are asked. -/
theorem foldl_ask (ds : List ClassId) :
    ds.foldl (l.ask m) ⟨seen, agenda, family, hits⟩ =
      let own := ds.filterMap fun d => l.graph.methodIn? d (l.graph.method m).key
      ⟨seen ∪ own.toFinset, agenda, own.foldl joinTo family,
        hits ++ ds.flatMap (l.classHits (l.graph.method m).name (l.graph.method m).desc
          (suffixOf (l.graph.method m)))⟩ := by
  induction ds generalizing seen family hits with
  | nil => simp
  | cons d ds ih =>
    rw [List.foldl_cons, ask]
    rcases h : l.graph.methodIn? d (l.graph.method m).key with _ | own
    · simp [ih, h]
    · simp [ih, h]

theorem asking_of_mem (h : m ∈ seen) :
    l.asking ⟨seen, (c, m) :: agenda, family, hits⟩ = some ([], ⟨seen, agenda, family, hits⟩) :=
  if_pos h

theorem asking_of_not_mem (h : m ∉ found) :
    l.asking ⟨found.toFinset, (c, m) :: agenda, before.eraseDups, hits⟩ =
      some ([m], ⟨(m :: l.graph.slotMethods c m ++ found).toFinset,
        l.graph.slotRelated c m ++ agenda,
        (before ++ m :: l.graph.slotMethods c m).eraseDups, hits ++ l.slotHits c m⟩) := by
  have hm : joinTo before.eraseDups m = (before ++ [m]).eraseDups := foldl_joinTo before [m]
  have hseen : insert m found.toFinset ∪ (l.graph.slotMethods c m).toFinset =
      (m :: l.graph.slotMethods c m ++ found).toFinset := by
    simp [Finset.union_comm]
  rw [List.append_cons before, ← hseen]
  simp only [asking, if_neg (mt List.mem_toFinset.1 h), foldl_ask, hm, foldl_joinTo]
  rfl

/-- Each pass is a turn of the search for the slots of a family. -/
theorem ends_asking (hg : l.graph.Coherent) (hagenda : ∀ e ∈ agenda, e.2 < l.graph.methodCount)
    (found before : List MethodId) (hits : List Hit) :
    ∃ seen, Ends l.asking ⟨found.toFinset, agenda, before.eraseDups, hits⟩
      ((l.graph.visitsFrom found agenda).map (·.2))
      ⟨seen, [], (before ++ l.graph.methodsOf (l.graph.visitsFrom found agenda)).eraseDups,
        hits ++ (l.graph.visitsFrom found agenda).flatMap fun (d, n) => l.slotHits d n⟩ := by
  fun_induction Graph.visitsFrom l.graph found agenda generalizing before hits with
  | case1 found =>
    simp only [Graph.methodsOf, List.flatMap_nil, List.append_nil]
    exact ⟨found.toFinset, .over rfl⟩
  | case2 found c m agenda hm ih =>
    rw [List.forall_mem_cons] at hagenda
    have hmem : m ∈ found := hm.resolve_right (Nat.not_le.2 hagenda.1)
    obtain ⟨seen, h⟩ := ih hagenda.2 before hits
    exact ⟨seen, .again (asking_of_mem (List.mem_toFinset.2 hmem)) h⟩
  | case3 found c m agenda hm ih =>
    rw [List.forall_mem_cons] at hagenda
    have hrelated : ∀ e ∈ l.graph.slotRelated c m, e.2 < l.graph.methodCount := fun e he =>
      (Graph.owned_slotRelated hg c m e he).2
    obtain ⟨seen, h⟩ := ih (List.forall_mem_append.2 ⟨hrelated, hagenda.2⟩)
      (before ++ m :: l.graph.slotMethods c m) (hits ++ l.slotHits c m)
    rw [List.append_assoc, List.append_assoc] at h
    exact ⟨seen, .again (asking_of_not_mem (not_or.1 hm).1) h⟩

/-- The loop that starts with a method of a class. -/
theorem ends_asking_from (hg : l.graph.Coherent) (c : ClassId) (hm : m < l.graph.methodCount) :
    ∃ expanded last, Ends l.asking { agenda := [(c, m)] } expanded last ∧ expanded.Nodup ∧
      last.family = l.graph.family c m ∧ last.hits = l.hits c m := by
  have hagenda : ∀ e ∈ [(c, m)], e.2 < l.graph.methodCount := List.forall_mem_singleton.2 hm
  obtain ⟨seen, h⟩ := ends_asking hg hagenda [] [] []
  exact ⟨_, _, h, Graph.nodup_visitsFrom, rfl, rfl⟩

end Lineage

namespace Graph

open Reach

variable {g : Graph}

/-- Whatever cycles the graph of a document has: a climb from any class with any set on the way
ends, leaves the set as it was given, and shows the unfolding, in which each branch has a set of
its own; this is the ancestry that is shown. The loops that look for the declarations above a
class, for all that is below it, for the slot of a method and for the earlier names of a family
end, each with what it is to find, and go on from no class and no method twice. -/
theorem walks_end_and_repeat_nothing {source : String} {doc : Document}
    (hload : ofDocument source doc = .ok g) :
    (∀ path c text path',
      g.Climbs path c text path' ↔ text = g.unfolding path c ∧ path' = path) ∧
    (∀ path c, g.ancestryFrom path c = g.unfolding path.toFinset c) ∧
    (∀ key c, ∃ expanded last,
      Ends (departing g.supertypes (g.declaresVirtual key))
        { seen := {c}, agenda := g.supertypes c } expanded last ∧
      (c :: expanded).Nodup ∧ last.found = g.declaringAncestors key c) ∧
    (∀ c, ∃ expanded last,
      Ends (arriving .stack g.subtypes) { seen := {c}, agenda := [c] } expanded last ∧
      expanded.Nodup ∧ last.found = g.descendants c) ∧
    (∀ c m, ∃ expanded last,
      Ends (arriving .queue (g.neighbours (g.method m).key))
        { seen := {c}, agenda := [c] } expanded last ∧
      expanded.Nodup ∧
      g.slot c m = if (g.method m).isFixed then [c]
        else c :: last.found.filter (g.declaresVirtual (g.method m).key)) ∧
    ∀ l : Lineage, l.graph = g → ∀ c, ∀ m < g.methodCount, ∃ expanded last,
      Ends l.asking { agenda := [(c, m)] } expanded last ∧
      expanded.Nodup ∧ last.family = g.family c m ∧
      Candidate.ofHits last.hits = l.candidates c m := by
  have hg := coherent_of_ofDocument hload
  have hkin := (built_of_ofDocument hload).kin
  refine ⟨?climbs, ?shown, ?above, ?below, ?slot, ?names⟩
  case climbs =>
    intro path c text path'
    exact climbs_iff hkin
  case shown => exact ancestryFrom_eq_unfolding hkin
  case above =>
    intro key c
    exact ends_departing_from hg.supertypes_lt c
  case below =>
    intro c
    exact ends_arriving_from hg.subtypes_lt c
  case slot =>
    intro c m
    have hnext : Bounded g.classCount (g.neighbours (g.method m).key) := neighbours_lt hg
    obtain ⟨expanded, last, h, hnodup, hfound⟩ := ends_arriving_from hnext c
    refine ⟨expanded, last, h, hnodup, ?_⟩
    rw [slot, hfound]
  case names =>
    rintro l rfl c m hm
    obtain ⟨expanded, last, h, hnodup, hfamily, hhits⟩ := l.ends_asking_from hg c hm
    refine ⟨expanded, last, h, hnodup, hfamily, ?_⟩
    rw [hhits, Lineage.candidates]

/-- Class `a` extends itself and names interfaces that extend one another, and one that is not
there. Of three methods each is related to the next, and the last one to the first. -/
def knotted : Document :=
  ⟨[{ name := "a", superName? := some "a", interfaceNames := ["x", "i", "j"],
      methods := [⟨"m", "()V", bridgeBit, [⟨"i", "n", "()V"⟩]⟩] },
    { name := "i", access := interfaceBit, interfaceNames := ["j"],
      methods := [⟨"n", "()V", 0, [⟨"j", "k", "()V"⟩]⟩] },
    { name := "j", access := interfaceBit, interfaceNames := ["i"],
      methods := [⟨"k", "()V", 0, [⟨"a", "m", "()V"⟩]⟩] }]⟩

def knottedGraph : Graph := (ofDocument "" knotted).toOption.getD {}

theorem walks_end_and_repeat_nothing_knotted :
    ofDocument "" knotted = .ok knottedGraph ∧
    knottedGraph.Climbs {1} 0 "a<-[a,i,j<-i]" {1} ∧
    ∃ expanded last, Ends (Lineage.asking { graph := knottedGraph }) { agenda := [(0, 0)] }
      expanded last ∧ expanded.Nodup ∧ last.family = [0, 1, 2] := by
  have hload : ofDocument "" knotted = .ok knottedGraph := rfl
  obtain ⟨hclimbs, hshown, _, _, _, hasks⟩ := walks_end_and_repeat_nothing hload
  refine ⟨hload, ?_, ?_⟩
  · have htext : knottedGraph.ancestryFrom [1] 0 = "a<-[a,i,j<-i]" := by cbv
    rw [hshown] at htext
    exact (hclimbs _ _ _ _).2 ⟨htext.symm, rfl⟩
  · obtain ⟨expanded, last, h, hnodup, hfamily, _⟩ :=
      hasks { graph := knottedGraph } rfl 0 0 (by decide)
    have hthree : knottedGraph.family 0 0 = [0, 1, 2] := by cbv
    exact ⟨expanded, last, h, hnodup, hfamily.trans hthree⟩

/-- From nowhere, the class that extends itself stands above itself once. -/
example : knottedGraph.ancestry 0 = "a<-[a,i<-j<-i,j<-i<-j]" ∧
    knottedGraph.descendants 1 = [0, 2] := by
  cbv

end Graph

end StableNames
