-- A store of matches. It is the two tables that the matches make, classes
-- and members apart. So a symbol that has one match only leads to it,
-- wherever the match stands among the others.
import StableNames.Matches
import StableNames.Proofs.Snapshot.Loaded

namespace StableNames

namespace Match

/-- The pair of a match of two classes. -/
def classPair? : Match → Option (String × String)
  | .ofClass source target => some (source, target)
  | .ofField _ _ | .ofMethod _ _ => none

/-- The pair of a match of two fields or two methods. -/
def memberPair? : Match → Option (Member × Member)
  | .ofClass _ _ => none
  | .ofField source target | .ofMethod source target => some (source, target)

theorem classPair?_eq_some {p : Match} {source target : String} :
    p.classPair? = some (source, target) ↔ p = .ofClass source target := by
  cases p <;> simp [classPair?]

theorem memberPair?_eq_some {p : Match} {source target : Member} :
    p.memberPair? = some (source, target) ↔
      p = .ofField source target ∨ p = .ofMethod source target := by
  cases p <;> simp [memberPair?]

end Match

namespace Store

theorem addMatches_empty (found : Matches) :
    Store.empty.addMatches found =
      .tables ⟨.ofList (found.pairs.filterMap (·.classPair?)),
        .ofList (found.pairs.filterMap (·.memberPair?))⟩ := by
  unfold addMatches
  induction found.pairs using List.reverseRecOn with
  | nil => rfl
  | append_singleton pairs p ih =>
    rw [List.foldl_append, ih, List.filterMap_append, List.filterMap_append]
    cases p with
    | ofClass source target =>
      simp [addMatch, addClass, Match.classPair?, Match.memberPair?, Assoc.ofList_append]
    | ofField source target =>
      simp [addMatch, addMember, Match.classPair?, Match.memberPair?, Assoc.ofList_append]
    | ofMethod source target =>
      simp [addMatch, addMember, Match.classPair?, Match.memberPair?, Assoc.ofList_append]

variable {found : Matches}

/-- A class with one match leads to it. -/
theorem lookupClass_addMatches {source target : String}
    (h : .ofClass source target ∈ found.pairs)
    (hone : ∀ target', .ofClass source target' ∈ found.pairs → target' = target) :
    (Store.empty.addMatches found).lookupClass source = some target := by
  rw [addMatches_empty]
  refine Assoc.get?_ofList (List.mem_filterMap.2 ⟨_, h, rfl⟩) ?_
  intro target' hmem
  obtain ⟨p, hp, heq⟩ := List.mem_filterMap.1 hmem
  rw [Match.classPair?_eq_some] at heq
  exact hone target' (heq ▸ hp)

/-- A member with one match leads to it. -/
theorem lookupMember_addMatches {source target : Member}
    (h : .ofField source target ∈ found.pairs ∨ .ofMethod source target ∈ found.pairs)
    (hone : ∀ target', .ofField source target' ∈ found.pairs ∨
      .ofMethod source target' ∈ found.pairs → target' = target) :
    (Store.empty.addMatches found).lookupMember source = some target := by
  rw [addMatches_empty]
  apply Assoc.get?_ofList
  · rcases h with h | h
    · exact List.mem_filterMap.2 ⟨_, h, rfl⟩
    · exact List.mem_filterMap.2 ⟨_, h, rfl⟩
  · intro target' hmem
    obtain ⟨p, hp, heq⟩ := List.mem_filterMap.1 hmem
    rcases Match.memberPair?_eq_some.1 heq with rfl | rfl
    · exact hone target' (.inl hp)
    · exact hone target' (.inr hp)

end Store

end StableNames
