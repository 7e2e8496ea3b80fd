-- What the searches find. A search that starts at a number marks exactly
-- the numbers that can be reached from it, whichever order it works in.
import Mathlib.Logic.Relation
import StableNames.Reach

namespace StableNames.Reach

open Relation

variable {bound : Nat} {next : Nat → List Nat} {marked : List Nat} {c x y : Nat}

/-- One step of a search. -/
def Next (next : Nat → List Nat) (x y : Nat) : Prop := y ∈ next x

/-- No step leaves the numbers below the bound. -/
def Bounded (bound : Nat) (next : Nat → List Nat) : Prop := ∀ x, ∀ y ∈ next x, y < bound

/-- A set that holds the start and is closed under steps holds all that is reached. -/
theorem mem_of_reached {s : List Nat} (hs : ∀ x ∈ s, ∀ y ∈ next x, y ∈ s) (hc : c ∈ s)
    (h : ReflTransGen (Next next) c x) : x ∈ s := by
  induction h with
  | refl => exact hc
  | tail _ hyx ih => exact hs _ ih _ hyx

/-! ## Depth first -/

theorem not_mem_of_mem_preorder {stack : List Nat}
    (h : x ∈ preorder bound next marked stack) : x ∉ marked := by
  fun_induction preorder bound next marked stack with
  | case1 => simp at h
  | case2 marked c stack hc ih => exact ih h
  | case3 marked c stack hc ih =>
    rw [not_or] at hc
    rcases List.mem_cons.1 h with rfl | h
    · exact hc.1
    · intro hx
      exact ih h (List.mem_cons_of_mem _ hx)

/-- Nothing is found twice. -/
theorem nodup_preorder {stack : List Nat} : (preorder bound next marked stack).Nodup := by
  fun_induction preorder bound next marked stack with
  | case1 => exact List.nodup_nil
  | case2 marked c stack hc ih => exact ih
  | case3 marked c stack hc ih =>
    rw [List.nodup_cons]
    refine ⟨?_, ih⟩
    intro h
    exact not_mem_of_mem_preorder h List.mem_cons_self

/-- All that is found is reached from the stack. -/
theorem reached_of_mem_preorder {stack : List Nat}
    (h : x ∈ preorder bound next marked stack) : ∃ s ∈ stack, ReflTransGen (Next next) s x := by
  fun_induction preorder bound next marked stack with
  | case1 => simp at h
  | case2 marked c stack hc ih =>
    obtain ⟨s, hs, hsx⟩ := ih h
    exact ⟨s, List.mem_cons_of_mem _ hs, hsx⟩
  | case3 marked c stack hc ih =>
    rcases List.mem_cons.1 h with rfl | h
    · exact ⟨_, List.mem_cons_self, .refl⟩
    · obtain ⟨s, hs, hsx⟩ := ih h
      rcases List.mem_append.1 hs with hs | hs
      · exact ⟨c, List.mem_cons_self, .head hs hsx⟩
      · exact ⟨s, List.mem_cons_of_mem _ hs, hsx⟩

/-- Nothing of the stack is left out. -/
theorem mem_preorder_of_mem_stack {stack : List Nat} (hx : x ∈ stack) (hb : x < bound) :
    x ∈ marked ++ preorder bound next marked stack := by
  fun_induction preorder bound next marked stack with
  | case1 => simp at hx
  | case2 marked c stack hc ih =>
    rcases List.mem_cons.1 hx with rfl | hx
    · exact List.mem_append_left _ (hc.resolve_right (by omega))
    · exact ih hx
  | case3 marked c stack hc ih =>
    have ih' := fun h => ih (List.mem_append_right _ h)
    rcases List.mem_cons.1 hx with rfl | hx
    · simp
    · simpa [or_left_comm, or_assoc] using ih' hx

/-- What follows a number that is found is found too. -/
theorem preorder_closed {stack : List Nat} (hx : x ∈ preorder bound next marked stack)
    (hy : y ∈ next x) (hb : y < bound) : y ∈ marked ++ preorder bound next marked stack := by
  fun_induction preorder bound next marked stack with
  | case1 => simp at hx
  | case2 marked c stack hc ih => exact ih hx
  | case3 marked c stack hc ih =>
    rcases List.mem_cons.1 hx with rfl | hx
    · have : y ∈ (x :: marked) ++ preorder bound next (x :: marked) (next x ++ stack) :=
        mem_preorder_of_mem_stack (List.mem_append_left stack hy) hb
      simpa [or_left_comm, or_assoc] using this
    · simpa [or_left_comm, or_assoc] using ih hx

/-- A search from a number finds all others that are reached from it. -/
theorem mem_preorder (hnext : Bounded bound next) :
    x ∈ preorder bound next [c] (next c) ↔ x ≠ c ∧ ReflTransGen (Next next) c x := by
  constructor
  · intro h
    obtain ⟨s, hs, hsx⟩ := reached_of_mem_preorder h
    exact ⟨by simpa using not_mem_of_mem_preorder h, .head hs hsx⟩
  · rintro ⟨hne, h⟩
    have hclosed : ∀ z ∈ [c] ++ preorder bound next [c] (next c), ∀ y ∈ next z,
        y ∈ [c] ++ preorder bound next [c] (next c) := by
      intro z hz y hy
      rcases List.mem_append.1 hz with hz | hz
      · rw [List.mem_singleton] at hz
        subst hz
        exact mem_preorder_of_mem_stack hy (hnext _ _ hy)
      · exact preorder_closed hz hy (hnext _ _ hy)
    have := mem_of_reached hclosed (by simp) h
    simpa [hne] using this

/-! ## Marking on arrival -/

variable {order : Agenda} {agenda : List Nat}

theorem mem_agenda_add {new rest : List Nat} :
    x ∈ order.add new rest ↔ x ∈ new ∨ x ∈ rest := by
  cases order <;> simp [Agenda.add, or_comm]

theorem not_mem_of_mem_spread (h : x ∈ spread order bound next marked agenda) : x ∉ marked := by
  fun_induction spread order bound next marked agenda with
  | case1 => simp at h
  | case2 marked c rest new ih =>
    rcases List.mem_append.1 h with h | h
    · exact (mem_fresh.1 h).2.1
    · intro hx
      exact ih h (List.mem_append_right _ hx)

/-- All that is found is reached from the agenda. -/
theorem reached_of_mem_spread (h : x ∈ spread order bound next marked agenda) :
    ∃ s ∈ agenda, ReflTransGen (Next next) s x := by
  fun_induction spread order bound next marked agenda with
  | case1 => simp at h
  | case2 marked c rest new ih =>
    have hnew : ∀ z ∈ new, Next next c z := fun z hz => (mem_fresh.1 hz).1
    rcases List.mem_append.1 h with h | h
    · exact ⟨c, List.mem_cons_self, .single (hnew x h)⟩
    · obtain ⟨s, hs, hsx⟩ := ih h
      rcases mem_agenda_add.1 hs with hs | hs
      · exact ⟨c, List.mem_cons_self, .head (hnew s hs) hsx⟩
      · exact ⟨s, List.mem_cons_of_mem _ hs, hsx⟩

/-- What follows a number of the agenda, or one that is found, is found too. -/
theorem spread_closed (hx : x ∈ agenda ∨ x ∈ spread order bound next marked agenda)
    (hy : y ∈ next x) (hb : y < bound) : y ∈ marked ++ spread order bound next marked agenda := by
  fun_induction spread order bound next marked agenda with
  | case1 => simp at hx
  | case2 marked c rest new ih =>
    have later (h : x ∈ order.add new rest ∨
        x ∈ spread order bound next (new ++ marked) (order.add new rest)) :
        y ∈ marked ++ (new ++ spread order bound next (new ++ marked) (order.add new rest)) := by
      simpa [or_left_comm, or_assoc] using ih h
    rcases hx with hx | hx
    · rcases List.mem_cons.1 hx with rfl | hx
      · by_cases hm : y ∈ marked
        · exact List.mem_append_left _ hm
        · have : y ∈ new := mem_fresh.2 ⟨hy, hm, hb⟩
          simp [this]
      · exact later (.inl (mem_agenda_add.2 (.inr hx)))
    · rcases List.mem_append.1 hx with hx | hx
      · exact later (.inl (mem_agenda_add.2 (.inl hx)))
      · exact later (.inr hx)

/-- A search from a number finds all others that are reached from it. -/
theorem mem_spread (hnext : Bounded bound next) :
    x ∈ spread order bound next [c] [c] ↔ x ≠ c ∧ ReflTransGen (Next next) c x := by
  constructor
  · intro h
    obtain ⟨s, hs, hsx⟩ := reached_of_mem_spread h
    rw [List.mem_singleton] at hs
    subst hs
    exact ⟨by simpa using not_mem_of_mem_spread h, hsx⟩
  · rintro ⟨hne, h⟩
    have hclosed : ∀ z ∈ [c] ++ spread order bound next [c] [c], ∀ y ∈ next z,
        y ∈ [c] ++ spread order bound next [c] [c] := by
      intro z hz y hy
      exact spread_closed (List.mem_append.1 hz) hy (hnext _ _ hy)
    have := mem_of_reached hclosed (by simp) h
    simpa [hne] using this

theorem nodup_fresh {candidates : List Nat} : (fresh bound marked candidates).Nodup := by
  induction candidates generalizing marked with
  | nil => exact List.nodup_nil
  | cons c candidates ih =>
    unfold fresh
    split
    · exact ih
    · rw [List.nodup_cons]
      refine ⟨?_, ih⟩
      intro hc
      exact (mem_fresh.1 hc).2.1 List.mem_cons_self

/-- Nothing is found twice. -/
theorem nodup_spread : (spread order bound next marked agenda).Nodup := by
  fun_induction spread order bound next marked agenda with
  | case1 => exact List.nodup_nil
  | case2 marked c rest new ih =>
    rw [List.nodup_append]
    refine ⟨nodup_fresh, ih, ?_⟩
    rintro x hx y hy rfl
    exact not_mem_of_mem_spread hy (List.mem_append_left _ hx)

end StableNames.Reach
