-- Where an expression matches. A match is a relation between the place
-- where it starts and the place where it ends; the lists of places that
-- the matcher works with hold just these. A repetition without an upper
-- bound reaches all its places after one round for each of them.
import Mathlib.Data.Finset.Card
import StableNames.Pattern.Regex

namespace StableNames.Pattern.Regex

/-! ## The relation -/

/-- `n` steps of a relation, one after the other. -/
def Chain (step : Nat → Nat → Prop) : Nat → Nat → Nat → Prop
  | 0, i, j => i = j
  | n + 1, i, j => ∃ k, step i k ∧ Chain step n k j

/-- The expression matches from one place of a text to another. -/
def Spans (text : Array Char) : Regex → Nat → Nat → Prop
  | .empty, i, j => i = j
  | .set s, i, j => j = i + 1 ∧ ∃ c ∈ text[i]?, s.mem c = true
  | .look l, i, j => i = j ∧ lookAt text l i = true
  | .seq a b, i, j => ∃ k, a.Spans text i k ∧ b.Spans text k j
  | .alt a b, i, j => a.Spans text i j ∨ b.Spans text i j
  | .rep least most? a, i, j =>
    ∃ n, least ≤ n ∧ (∀ most ∈ most?, n ≤ max least most) ∧ Chain (a.Spans text) n i j

/-- The expression matches a text from its start to its end. -/
def Matches (r : Regex) (text : String) : Prop :=
  r.Spans text.toList.toArray 0 text.toList.length

/-- The expression matches somewhere in a text. -/
def Occurs (r : Regex) (text : String) : Prop :=
  ∃ i ≤ text.toList.length, ∃ j, r.Spans text.toList.toArray i j

section Chain

variable {step : Nat → Nat → Prop} {i j k n m : Nat}

theorem chain_add : Chain step (n + m) i j ↔ ∃ k, Chain step n i k ∧ Chain step m k j := by
  induction n generalizing i with
  | zero => simp [Chain]
  | succ n ih =>
    rw [Nat.add_right_comm]
    simp only [Chain, ih]
    constructor
    · rintro ⟨k, hstep, k', hn, hm⟩
      exact ⟨k', ⟨k, hstep, hn⟩, hm⟩
    · rintro ⟨k', ⟨k, hstep, hn⟩, hm⟩
      exact ⟨k, hstep, k', hn, hm⟩

/-- The first steps, and then all that come after them. -/
theorem exists_chain_iff {places : List Nat} {p : Nat → Prop} :
    (∃ m, p m ∧ ∃ k, (∃ i ∈ places, Chain step n i k) ∧ Chain step m k j) ↔
      ∃ i ∈ places, ∃ m, n ≤ m ∧ p (m - n) ∧ Chain step m i j := by
  constructor
  · rintro ⟨m, hp, k, ⟨i, hi, hn⟩, hm⟩
    refine ⟨i, hi, n + m, Nat.le_add_right _ _, ?_, chain_add.2 ⟨k, hn, hm⟩⟩
    rwa [Nat.add_sub_cancel_left]
  · rintro ⟨i, hi, m, hle, hp, hchain⟩
    rw [← Nat.add_sub_cancel' hle] at hchain
    obtain ⟨k, hn, hm⟩ := chain_add.1 hchain
    exact ⟨m - n, hp, k, ⟨i, hi, hn⟩, hm⟩

/-- What each step keeps, all of them keep. -/
theorem Chain.keeps (h : Chain step n i j) {p : Nat → Prop}
    (hstep : ∀ i j, p i → step i j → p j) (hi : p i) : p j := by
  induction n generalizing i with
  | zero => exact h ▸ hi
  | succ n ih =>
    obtain ⟨k, hk, hrest⟩ := h
    exact ih hrest (hstep i k hi hk)

end Chain

/-- A match ends where it starts, or within the text. -/
theorem Spans.end_le {text : Array Char} (r : Regex) :
    ∀ i j, r.Spans text i j → j = i ∨ j ≤ text.size := by
  induction r with
  | empty =>
    rintro i j rfl
    exact Or.inl rfl
  | set s =>
    rintro i j ⟨rfl, c, hc, -⟩
    exact Or.inr (Array.getElem?_eq_some_iff.1 hc).1
  | look l =>
    rintro i j ⟨rfl, -⟩
    exact Or.inl rfl
  | seq a b iha ihb =>
    rintro i j ⟨k, ha, hb⟩
    rcases ihb k j hb with rfl | hj
    · exact iha i j ha
    · exact Or.inr hj
  | alt a b iha ihb =>
    rintro i j (ha | hb)
    · exact iha i j ha
    · exact ihb i j hb
  | rep least most? a ih =>
    rintro i j ⟨n, -, -, hchain⟩
    refine hchain.keeps (p := fun k => k = i ∨ k ≤ text.size) ?_ (Or.inl rfl)
    intro k k' hk hstep
    rcases ih k k' hstep with rfl | hk'
    · exact hk
    · exact Or.inr hk'

/-! ## Rounds -/

section Rounds

variable {step : Nat → Nat → Prop} {f : List Nat → List Nat}
  (hf : ∀ places j, j ∈ f places ↔ ∃ i ∈ places, step i j)

theorem mem_merge {a b : List Nat} {j : Nat} : j ∈ merge a b ↔ j ∈ a ∨ j ∈ b := by
  unfold merge
  rw [List.mem_append, List.mem_filter, decide_eq_true_iff]
  by_cases h : j ∈ a <;> simp [h]

include hf

theorem mem_iterate (n : Nat) (places : List Nat) (j : Nat) :
    j ∈ iterate f n places ↔ ∃ i ∈ places, Chain step n i j := by
  induction n generalizing places with
  | zero => simp [iterate, Chain]
  | succ n ih =>
    rw [iterate, ih]
    simp only [hf, Chain]
    constructor
    · rintro ⟨k, ⟨i, hi, hstep⟩, hchain⟩
      exact ⟨i, hi, k, hstep, hchain⟩
    · rintro ⟨i, hi, k, hstep, hchain⟩
      exact ⟨k, ⟨i, hi, hstep⟩, hchain⟩

/-- What cannot be left in one step is not left in many. -/
theorem mem_of_chain {places : List Nat} (h : ∀ j ∈ f places, j ∈ places) {n i j : Nat}
    (hi : i ∈ places) (hchain : Chain step n i j) : j ∈ places := by
  induction n generalizing i with
  | zero => exact hchain ▸ hi
  | succ n ih =>
    obtain ⟨k, hstep, hrest⟩ := hchain
    exact ih (h k ((hf places k).2 ⟨i, hi, hstep⟩)) hrest

omit hf in
/-- A round makes the list no longer just if it reaches nothing new. -/
theorem length_merge_eq {a b : List Nat} :
    (merge a b).length = a.length ↔ ∀ j ∈ b, j ∈ a := by
  unfold merge
  rw [List.length_append, Nat.add_eq_left, List.length_eq_zero_iff, List.filter_eq_nil_iff]
  simp

theorem mem_gather (n : Nat) (places : List Nat) (j : Nat) :
    j ∈ gather f n places ↔ ∃ m ≤ n, ∃ i ∈ places, Chain step m i j := by
  induction n generalizing places with
  | zero =>
    simp [gather, Chain]
  | succ n ih =>
    rw [gather]
    split_ifs with hlength
    · constructor
      · intro hj
        exact ⟨0, Nat.zero_le _, j, hj, rfl⟩
      · rintro ⟨m, -, i, hi, hchain⟩
        exact mem_of_chain hf (length_merge_eq.1 hlength) hi hchain
    · rw [ih]
      constructor
      · rintro ⟨m, hm, i, hi, hchain⟩
        rcases mem_merge.1 hi with hi | hi
        · exact ⟨m, Nat.le_succ_of_le hm, i, hi, hchain⟩
        · obtain ⟨k, hk, hstep⟩ := (hf places i).1 hi
          exact ⟨m + 1, Nat.succ_le_succ hm, k, hk, i, hstep, hchain⟩
      · rintro ⟨m, hm, i, hi, hchain⟩
        cases m with
        | zero => exact ⟨0, Nat.zero_le _, i, mem_merge.2 (Or.inl hi), hchain⟩
        | succ m =>
          obtain ⟨k, hstep, hrest⟩ := hchain
          exact ⟨m, Nat.le_of_succ_le_succ hm, k,
            mem_merge.2 (Or.inr ((hf places k).2 ⟨i, hi, hstep⟩)), hrest⟩

/-- With a round for each place that there is, all places are reached. -/
theorem mem_gather_of_chain {all : Finset Nat} (hstep : ∀ i j, i ∈ all → step i j → j ∈ all)
    {n : Nat} {places : List Nat} (hplaces : places.toFinset ⊆ all)
    (hn : all.card ≤ n + places.toFinset.card) {m i j : Nat} (hi : i ∈ places)
    (hchain : Chain step m i j) : j ∈ gather f n places := by
  induction n generalizing places m i with
  | zero =>
    have hall : places.toFinset = all := Finset.eq_of_subset_of_card_le hplaces (by omega)
    have hj : j ∈ all := hchain.keeps hstep (hplaces (List.mem_toFinset.2 hi))
    rw [← hall] at hj
    exact List.mem_toFinset.1 hj
  | succ n ih =>
    rw [gather]
    split_ifs with hlength
    · exact mem_of_chain hf (length_merge_eq.1 hlength) hi hchain
    · have hmore : (merge places (f places)).toFinset ⊆ all := by
        intro k hk
        rcases mem_merge.1 (List.mem_toFinset.1 hk) with hk | hk
        · exact hplaces (List.mem_toFinset.2 hk)
        · obtain ⟨i, hi, hik⟩ := (hf places k).1 hk
          exact hstep i k (hplaces (List.mem_toFinset.2 hi)) hik
      have hgrows : places.toFinset.card < (merge places (f places)).toFinset.card := by
        apply Finset.card_lt_card
        rw [Finset.ssubset_iff_subset_ne]
        refine ⟨fun k hk => ?_, fun heq => ?_⟩
        · rw [List.mem_toFinset] at hk ⊢
          exact mem_merge.2 (Or.inl hk)
        · apply hlength
          rw [length_merge_eq]
          intro k hk
          rw [← List.mem_toFinset, heq, List.mem_toFinset]
          exact mem_merge.2 (Or.inr hk)
      exact ih hmore (by omega) (mem_merge.2 (Or.inl hi)) hchain

end Rounds

/-! ## The matcher -/

section Matcher

variable {text : Array Char} {a : Regex}
  (ha : ∀ places j, j ∈ a.ends text places ↔ ∃ i ∈ places, a.Spans text i j)

include ha

/-- Without an upper bound, one round more than the text has signs is enough. -/
theorem mem_gather_ends (places : List Nat) (j : Nat) :
    j ∈ gather (a.ends text) (text.size + 1) places ↔
      ∃ m, ∃ i ∈ places, Chain (a.Spans text) m i j := by
  constructor
  · intro hj
    obtain ⟨m, -, hm⟩ := (mem_gather ha _ _ _).1 hj
    exact ⟨m, hm⟩
  · rintro ⟨m, i, hi, hchain⟩
    have hall : (places.toFinset ∪ Finset.range (text.size + 1)).card ≤
        text.size + 1 + places.toFinset.card := by
      have hunion := Finset.card_union_le places.toFinset (Finset.range (text.size + 1))
      rw [Finset.card_range] at hunion
      omega
    refine mem_gather_of_chain ha ?_ Finset.subset_union_left hall hi hchain
    intro i j hi hij
    rcases Spans.end_le a i j hij with rfl | hj
    · exact hi
    · exact Finset.mem_union_right _ (Finset.mem_range.2 (Nat.lt_succ_of_le hj))

end Matcher

/-- The places that the matcher finds are those where a match ends. -/
theorem mem_ends (text : Array Char) (r : Regex) : ∀ places j,
    j ∈ r.ends text places ↔ ∃ i ∈ places, r.Spans text i j := by
  induction r with
  | empty =>
    intro places j
    simp [ends, Spans]
  | set s =>
    intro places j
    simp only [ends, Spans, List.mem_map, List.mem_filter]
    constructor
    · rintro ⟨i, ⟨hi, hc⟩, rfl⟩
      obtain ⟨c, hc, hmem⟩ := (Option.any_eq_true _ _).1 hc
      exact ⟨i, hi, rfl, c, hc, hmem⟩
    · rintro ⟨i, hi, rfl, c, hc, hmem⟩
      exact ⟨i, ⟨hi, (Option.any_eq_true _ _).2 ⟨c, hc, hmem⟩⟩, rfl⟩
  | look l =>
    intro places j
    simp only [ends, Spans, List.mem_filter]
    constructor
    · rintro ⟨hj, hl⟩
      exact ⟨j, hj, rfl, hl⟩
    · rintro ⟨i, hi, rfl, hl⟩
      exact ⟨hi, hl⟩
  | seq a b iha ihb =>
    intro places j
    simp only [ends, Spans, ihb, iha]
    constructor
    · rintro ⟨k, ⟨i, hi, ha⟩, hb⟩
      exact ⟨i, hi, k, ha, hb⟩
    · rintro ⟨i, hi, k, ha, hb⟩
      exact ⟨k, ⟨i, hi, ha⟩, hb⟩
  | alt a b iha ihb =>
    intro places j
    simp only [ends, Spans, mem_merge, iha, ihb]
    constructor
    · rintro (⟨i, hi, ha⟩ | ⟨i, hi, hb⟩)
      · exact ⟨i, hi, Or.inl ha⟩
      · exact ⟨i, hi, Or.inr hb⟩
    · rintro ⟨i, hi, ha | hb⟩
      · exact Or.inl ⟨i, hi, ha⟩
      · exact Or.inr ⟨i, hi, hb⟩
  | rep least most? a ih =>
    intro places j
    rw [ends]
    cases most? with
    | none =>
      simp only [Option.map_none, Option.getD_none]
      rw [mem_gather_ends ih]
      simp only [mem_iterate ih, Spans]
      simpa using exists_chain_iff (p := fun _ => True) (n := least)
    | some most =>
      simp only [Option.map_some, Option.getD_some]
      rw [mem_gather ih]
      simp only [mem_iterate ih, Spans]
      refine (exists_chain_iff (p := (· ≤ most - least))).trans ?_
      constructor
      · rintro ⟨i, hi, m, hle, hm, hchain⟩
        refine ⟨i, hi, m, hle, ?_, hchain⟩
        rintro _ ⟨⟩
        omega
      · rintro ⟨i, hi, m, hle, hm, hchain⟩
        have hmost := hm most rfl
        exact ⟨i, hi, m, hle, by omega, hchain⟩

theorem matchesIn_iff (r : Regex) (text : String) : r.matchesIn text = true ↔ r.Occurs text := by
  unfold matchesIn Occurs
  simp only [Bool.not_eq_true', List.isEmpty_eq_false_iff_exists_mem, mem_ends, List.mem_range,
    Nat.lt_succ_iff, List.size_toArray]
  constructor
  · rintro ⟨j, i, hi, hij⟩
    exact ⟨i, hi, j, hij⟩
  · rintro ⟨i, hi, j, hij⟩
    exact ⟨j, i, hi, hij⟩

/-! ## Whole texts -/

/-- The expression between the start and the end of the text. -/
def whole (r : Regex) : Regex := .seq (.look .textStart) (.seq r (.look .textEnd))

theorem lookAt_textStart {text : Array Char} {i : Nat} (hi : i ≤ text.size) :
    lookAt text .textStart i = true ↔ i = 0 := by
  unfold lookAt Look.holds
  cases i with
  | zero => simp
  | succ i =>
    have hbefore : text[i]? = some text[i] := Array.getElem?_eq_getElem hi
    simp [hbefore]

theorem lookAt_textEnd {text : Array Char} {j : Nat} :
    lookAt text .textEnd j = true ↔ text.size ≤ j := by
  unfold lookAt Look.holds
  simp

/-- Between the start and the end, an expression matches a text as a whole. -/
theorem occurs_whole (r : Regex) (text : String) : r.whole.Occurs text ↔ r.Matches text := by
  unfold whole Matches Occurs
  simp only [Spans]
  constructor
  · rintro ⟨i, hi, j, _, ⟨rfl, hstart⟩, k, hr, rfl, hend⟩
    obtain rfl := (lookAt_textStart hi).1 hstart
    have hle : text.toList.length ≤ k := lookAt_textEnd.1 hend
    have hk : k = text.toList.length := by
      rcases Spans.end_le r 0 k hr with rfl | hle'
      · exact (Nat.le_zero.1 hle).symm
      · exact Nat.le_antisymm hle' hle
    rwa [hk] at hr
  · intro h
    exact ⟨0, Nat.zero_le _, _, 0, ⟨rfl, (lookAt_textStart (Nat.zero_le _)).2 rfl⟩, _, h, rfl,
      lookAt_textEnd.2 (Nat.le_refl _)⟩

end StableNames.Pattern.Regex
