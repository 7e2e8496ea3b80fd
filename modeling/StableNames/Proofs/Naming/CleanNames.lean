-- Clean names lead to clean names. What a store knows under a clean name
-- is clean, a number behind a marker is clean, and so is every candidate
-- of a method in a graph of clean names.
import StableNames.Proofs.Naming.Candidates
import StableNames.Proofs.Snapshot.RoundTrip
import StableNames.Proofs.Text.Places

namespace StableNames

/-- Under clean names the store has clean names. -/
structure Store.Clean (s : Store) : Prop where
  lookupClass : ∀ name target, CleanName name → s.lookupClass name = some target →
    CleanName target
  lookupMember : ∀ member target, CleanName member.name → s.lookupMember member = some target →
    CleanName target.name

/-- All stores of the chain are clean. -/
structure Chain.Clean (chain : Chain) : Prop where
  current : ∀ store ∈ chain.current?, store.Clean
  toOld : ∀ earlier ∈ chain.earlier?, earlier.toOld.Clean
  names : ∀ earlier ∈ chain.earlier?, earlier.names.Clean

theorem Chain.clean_empty : Chain.Clean {} := ⟨by simp, by simp, by simp⟩

namespace Chain.Clean

variable {chain : Chain} {name target : String} {member found : Member}

theorem lookupClass (h : chain.Clean) (hn : CleanName name)
    (hl : chain.lookupClass name = some target) : CleanName target := by
  unfold Chain.lookupClass at hl
  rcases Option.or_eq_some_iff.1 hl with hl | ⟨_, hl⟩
  · obtain ⟨store, hstore, hl⟩ := Option.bind_eq_some_iff.1 hl
    exact (h.current store hstore).lookupClass _ _ hn hl
  · obtain ⟨earlier, he, hl⟩ := Option.bind_eq_some_iff.1 hl
    obtain ⟨old, hold, hl⟩ := Option.bind_eq_some_iff.1 hl
    exact (h.names earlier he).lookupClass _ _ ((h.toOld earlier he).lookupClass _ _ hn hold) hl

theorem currentMember (h : chain.Clean) (hn : CleanName member.name)
    (hl : chain.currentMember member = some found) : CleanName found.name := by
  obtain ⟨store, hstore, hl⟩ := Option.bind_eq_some_iff.1 hl
  exact (h.current store hstore).lookupMember _ _ hn hl

theorem lookupMember (h : chain.Clean) (hn : CleanName member.name)
    (hl : chain.lookupMember member = some found) : CleanName found.name := by
  unfold Chain.lookupMember at hl
  rcases Option.or_eq_some_iff.1 hl with hl | ⟨_, hl⟩
  · exact h.currentMember hn hl
  · obtain ⟨earlier, he, hl⟩ := Option.bind_eq_some_iff.1 hl
    obtain ⟨old, hold, hl⟩ := Option.bind_eq_some_iff.1 hl
    exact (h.names earlier he).lookupMember _ _ ((h.toOld earlier he).lookupMember _ _ hn hold) hl

end Chain.Clean

/-! ## Fresh names -/

theorem Category.clean_name (category : Category) (n : Nat) : CleanName (category.name n) := by
  have hmarker : Unbroken category.marker := by cases category <;> decide
  refine CleanName.append hmarker ⟨?_, fun c hc => ?_, fun hlast => ?_⟩
  · intro hempty
    exact Text.toString_ne_nil n (congrArg String.toList hempty)
  · have hdigit := Text.isDigit_of_mem_toString hc
    refine ⟨?_, ?_⟩
    · rintro rfl
      exact absurd hdigit (by decide)
    · rintro rfl
      exact absurd hdigit (by decide)
  · exact absurd (Text.isDigit_of_mem_toString (List.mem_of_getLast? hlast)) (by decide)

/-- No fresh name has a dollar sign in it. -/
theorem Category.dollar_not_mem_name (category : Category) (n : Nat) :
    '$' ∉ (category.name n).toList := by
  unfold Category.name
  rw [String.toList_append, List.mem_append, not_or]
  refine ⟨by cases category <;> decide, ?_⟩
  intro hc
  exact absurd (Text.isDigit_of_mem_toString hc) (by decide)

/-! ## Candidates -/

namespace Lineage

variable {l : Lineage} {c : ClassId} {m : MethodId}

/-- A name that a method of a clean name had before is clean. -/
theorem EarlierName.clean (hl : l.chain.Clean) {member : Member} {name : String}
    (hn : CleanName member.name) (h : l.EarlierName member name) : CleanName name := by
  cases h with
  | current h => exact hl.currentMember hn h
  | matched _ hearlier hold h =>
    have ho := (hl.toOld _ hearlier).lookupMember _ _ hn hold
    exact (hl.names _ hearlier).lookupMember _ _ ho h
  | slot _ hearlier hold _ _ _ _ _ h =>
    have ho := (hl.toOld _ hearlier).lookupMember _ _ hn hold
    refine (hl.names _ hearlier).lookupMember _ _ ?_ h
    exact ho

theorem clean_of_mem_candidates (hg : l.graph.Coherent) (hl : l.chain.Clean)
    (hclean : ∀ n < l.graph.methodCount, CleanName (l.graph.method n).name)
    (hm : m < l.graph.methodCount) {candidate : Candidate}
    (h : candidate ∈ l.candidates (l.graph.method m).owner m) : CleanName candidate.name := by
  unfold candidates Candidate.ofHits at h
  obtain ⟨name, hname, rfl⟩ := List.mem_map.1 h
  obtain ⟨hit, hhit, rfl⟩ := List.mem_map.1 (mem_sortedSet.1 hname)
  obtain ⟨⟨d, n⟩, hv, hslot⟩ := mem_hits.1 hhit
  obtain ⟨_, _, hclass⟩ := mem_slotHits.1 hslot
  exact (exists_mem_classHits_iff.1 ⟨hit, hclass, rfl⟩).clean hl
    (hclean n (Graph.akin_of_mem_visits hg hm hv).2.1)

end Lineage

end StableNames
