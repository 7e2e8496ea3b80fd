-- Searches through the numbers below a bound. Each search keeps the
-- numbers that it has marked and never goes on from one of them twice, so
-- it ends on every graph, cyclic or not.

namespace StableNames.Reach

/-- The numbers below `bound` that are not marked. -/
def unmarked (bound : Nat) (marked : List Nat) : Nat :=
  (List.range bound).countP (· ∉ marked)

theorem countP_lt_countP {α : Type} {p q : α → Bool} {l : List α}
    (h : ∀ x ∈ l, p x = true → q x = true) {a : α} (ha : a ∈ l) (hq : q a = true)
    (hp : p a = false) : l.countP p < l.countP q := by
  induction l with
  | nil => simp at ha
  | cons b l ih =>
    have hl : ∀ x ∈ l, p x = true → q x = true := fun x hx => h x (List.mem_cons_of_mem _ hx)
    have hle := List.countP_mono_left hl
    rw [List.countP_cons, List.countP_cons]
    rcases List.mem_cons.1 ha with rfl | ha
    · simp [hp, hq]
      omega
    · have := ih hl ha
      have hb := h b List.mem_cons_self
      by_cases hpb : p b = true
      · rw [if_pos hpb, if_pos (hb hpb)]
        omega
      · rw [if_neg hpb]
        omega

/-- Marking one more number below the bound leaves fewer unmarked. -/
theorem unmarked_lt {bound : Nat} {marked marked' : List Nat} {a : Nat} (hb : a < bound)
    (ha : a ∉ marked) (ha' : a ∈ marked') (h : ∀ x ∈ marked, x ∈ marked') :
    unmarked bound marked' < unmarked bound marked := by
  refine countP_lt_countP (fun x _ hx => ?_) (List.mem_range.2 hb) (by simpa using ha)
    (by simpa using ha')
  simp only [decide_not, Bool.not_eq_true', decide_eq_false_iff_not] at hx ⊢
  intro hm
  exact hx (h x hm)

/-- The unmarked numbers below the bound among `candidates`, each at its first place. -/
def fresh (bound : Nat) (marked : List Nat) : List Nat → List Nat
  | [] => []
  | c :: candidates =>
    if c ∈ marked ∨ bound ≤ c then fresh bound marked candidates
    else c :: fresh bound (c :: marked) candidates

theorem mem_fresh {bound : Nat} {marked candidates : List Nat} {a : Nat} :
    a ∈ fresh bound marked candidates ↔ a ∈ candidates ∧ a ∉ marked ∧ a < bound := by
  induction candidates generalizing marked with
  | nil => simp [fresh]
  | cons c candidates ih =>
    by_cases hc : c ∈ marked ∨ bound ≤ c
    · rw [fresh, if_pos hc, ih, List.mem_cons]
      constructor
      · rintro ⟨h, h'⟩
        exact ⟨.inr h, h'⟩
      · rintro ⟨rfl | h, h', hb⟩
        · rcases hc with hc | hc
          · exact absurd hc h'
          · omega
        · exact ⟨h, h', hb⟩
    · rw [fresh, if_neg hc, List.mem_cons, ih, List.mem_cons, List.mem_cons]
      rw [not_or] at hc
      by_cases h : a = c
      · subst h
        simp [hc.1]
        omega
      · simp [h]

/-! ## Depth first -/

/-- The numbers that are reached from a stack, in the order in which they are taken from
it: before what follows them, and first what stands first. -/
def preorder (bound : Nat) (next : Nat → List Nat) (marked : List Nat) : List Nat → List Nat
  | [] => []
  | c :: stack =>
    if _h : c ∈ marked ∨ bound ≤ c then preorder bound next marked stack
    else c :: preorder bound next (c :: marked) (next c ++ stack)
termination_by stack => (unmarked bound marked, stack.length)
decreasing_by
  · exact Prod.Lex.right _ (by simp)
  · rw [not_or] at _h
    exact Prod.Lex.left _ _ (unmarked_lt (by omega) _h.1 List.mem_cons_self
      fun x hx => List.mem_cons_of_mem _ hx)

/-! ## Marking on arrival -/

/-- Where newly marked numbers go in the list of those still to go on from. -/
inductive Agenda where
  | stack
  | queue
deriving DecidableEq, Repr

def Agenda.add (order : Agenda) (new rest : List Nat) : List Nat :=
  match order with
  | .stack => new.reverse ++ rest
  | .queue => rest ++ new

/-- The numbers that are reached from those on the agenda, in the order in which they are
marked. -/
def spread (order : Agenda) (bound : Nat) (next : Nat → List Nat) (marked : List Nat) :
    List Nat → List Nat
  | [] => []
  | c :: rest =>
    let new := fresh bound marked (next c)
    new ++ spread order bound next (new ++ marked) (order.add new rest)
termination_by agenda => (unmarked bound marked, agenda.length)
decreasing_by
  by_cases h : fresh bound marked (next c) = []
  · rw [h]
    exact Prod.Lex.right _ (by cases order <;> simp [Agenda.add])
  · obtain ⟨a, ha⟩ := List.exists_mem_of_ne_nil _ h
    have hm := mem_fresh.1 ha
    exact Prod.Lex.left _ _ (unmarked_lt hm.2.2 hm.2.1 (List.mem_append_left _ ha)
      fun x hx => List.mem_append_right _ hx)

end StableNames.Reach
