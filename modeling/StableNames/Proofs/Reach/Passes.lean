-- Searches pass by pass. A search is a loop: each pass takes a number from
-- those still to go on from, goes on from it unless it did so before, and
-- adds what follows it. Nothing in a loop says that it ends. Where no step
-- leaves the numbers below a bound, the loops here end, go on from no
-- number twice, and find what the searches are defined to find.
import Mathlib.Data.Finset.Lattice.Lemmas
import StableNames.Proofs.Reach

namespace StableNames

/-- The loop from the first state ends in the last one. A pass gives what it goes on from and the
next state, and nothing if the loop is over; all that the passes went on from stands in between,
in order. -/
inductive Ends {σ α : Type} (pass : σ → Option (List α × σ)) : σ → List α → σ → Prop
  | over {s : σ} (h : pass s = none) : Ends pass s [] s
  | again {s s' last : σ} {now later : List α} (h : pass s = some (now, s'))
      (hrest : Ends pass s' later last) : Ends pass s (now ++ later) last

namespace Reach

variable {bound : Nat} {next : Nat → List Nat} {wanted : Nat → Bool} {order : Agenda} {c : Nat}
  {marked agenda found candidates : List Nat} {seen : Finset Nat}

/-- The state of a search: what was seen, what is still to go on from, and what was found. -/
structure Search where
  seen : Finset Nat
  agenda : List Nat
  found : List Nat := []

/-! ## Marking on departure -/

/-- A pass that marks the number that it takes from the agenda, and finds it if it is wanted.
What follows the number is put before all else. -/
def departing (next : Nat → List Nat) (wanted : Nat → Bool) (s : Search) :
    Option (List Nat × Search) :=
  match s.agenda with
  | [] => none
  | c :: rest =>
    if c ∈ s.seen then some ([], { s with agenda := rest })
    else
      some ([c], {
        seen := insert c s.seen
        agenda := next c ++ rest
        found := if wanted c then s.found ++ [c] else s.found })

theorem departing_of_mem (h : c ∈ seen) :
    departing next wanted ⟨seen, c :: agenda, found⟩ = some ([], ⟨seen, agenda, found⟩) :=
  if_pos h

theorem departing_of_not_mem (h : c ∉ seen) :
    departing next wanted ⟨seen, c :: agenda, found⟩ =
      some ([c], ⟨insert c seen, next c ++ agenda, found ++ [c].filter wanted⟩) := by
  simp only [departing, if_neg h]
  by_cases hc : wanted c <;> simp [hc]

/-- Each pass is a turn of the search that goes depth first. -/
theorem ends_departing (hnext : Bounded bound next) (hagenda : ∀ x ∈ agenda, x < bound)
    (marked found : List Nat) :
    ∃ seen, Ends (departing next wanted) ⟨marked.toFinset, agenda, found⟩
      (preorder bound next marked agenda)
      ⟨seen, [], found ++ (preorder bound next marked agenda).filter wanted⟩ := by
  -- what the search has marked is what the loop has seen, so both take the same turn
  fun_induction preorder bound next marked agenda generalizing found with
  | case1 marked =>
    rw [List.filter_nil, List.append_nil]
    exact ⟨marked.toFinset, .over rfl⟩
  | case2 marked c stack hc ih =>
    rw [List.forall_mem_cons] at hagenda
    have hmem : c ∈ marked := hc.resolve_right (Nat.not_le.2 hagenda.1)
    obtain ⟨seen, h⟩ := ih hagenda.2 found
    exact ⟨seen, .again (departing_of_mem (List.mem_toFinset.2 hmem)) h⟩
  | case3 marked c stack hc ih =>
    rw [List.forall_mem_cons] at hagenda
    rw [not_or] at hc
    have hpass : departing next wanted ⟨marked.toFinset, c :: stack, found⟩ =
        some ([c], ⟨(c :: marked).toFinset, next c ++ stack, found ++ [c].filter wanted⟩) := by
      rw [departing_of_not_mem (mt List.mem_toFinset.1 hc.1), List.toFinset_cons]
    obtain ⟨seen, h⟩ := ih (List.forall_mem_append.2 ⟨hnext c, hagenda.2⟩)
      (found ++ [c].filter wanted)
    rw [List.append_assoc, ← List.filter_append] at h
    exact ⟨seen, .again hpass h⟩

/-- The loop that starts with what follows a number. -/
theorem ends_departing_from (hnext : Bounded bound next) (c : Nat) :
    ∃ expanded last,
      Ends (departing next wanted) { seen := {c}, agenda := next c } expanded last ∧
        (c :: expanded).Nodup ∧
          last.found = (preorder bound next [c] (next c)).filter wanted := by
  obtain ⟨seen, h⟩ := ends_departing hnext (hnext c) [c] []
  refine ⟨_, _, h, ?_, rfl⟩
  rw [List.nodup_cons]
  exact ⟨fun hc => not_mem_of_mem_preorder hc List.mem_cons_self, nodup_preorder⟩

/-! ## Marking on arrival -/

theorem Agenda.add_add (order : Agenda) (new later rest : List Nat) :
    order.add later (order.add new rest) = order.add (new ++ later) rest := by
  cases order <;> simp [Agenda.add]

theorem Agenda.add_perm (order : Agenda) (new rest : List Nat) :
    (order.add new rest).Perm (rest ++ new) := by
  cases order with
  | stack => exact List.perm_append_comm.trans ((List.reverse_perm new).append_left rest)
  | queue => exact .refl _

/-- A number that is met: if it is new, it is marked and found, and put on the agenda. -/
def Search.meet (order : Agenda) (s : Search) (c : Nat) : Search :=
  if c ∈ s.seen then s
  else { seen := insert c s.seen, agenda := order.add [c] s.agenda, found := s.found ++ [c] }

/-- A pass that meets all that follows the first number of the agenda, one after another. -/
def arriving (order : Agenda) (next : Nat → List Nat) (s : Search) :
    Option (List Nat × Search) :=
  match s.agenda with
  | [] => none
  | c :: rest => some ([c], (next c).foldl (Search.meet order) { s with agenda := rest })

/-- Of all that is met, what is new is found and put on the agenda. -/
theorem foldl_meet (hb : ∀ x ∈ candidates, x < bound) :
    candidates.foldl (Search.meet order) ⟨marked.toFinset, agenda, found⟩ =
      ⟨(fresh bound marked candidates ++ marked).toFinset,
        order.add (fresh bound marked candidates) agenda,
        found ++ fresh bound marked candidates⟩ := by
  induction candidates generalizing marked agenda found with
  | nil => cases order <;> simp [fresh, Agenda.add]
  | cons c candidates ih =>
    rw [List.forall_mem_cons] at hb
    rw [List.foldl_cons, Search.meet, fresh]
    by_cases hc : c ∈ marked
    · rw [if_pos (List.mem_toFinset.2 hc), if_pos (.inl hc)]
      exact ih hb.2
    · rw [if_neg (mt List.mem_toFinset.1 hc), if_neg (not_or.2 ⟨hc, Nat.not_le.2 hb.1⟩),
        ← List.toFinset_cons, ih hb.2, Agenda.add_add]
      simp

/-- Each pass is a turn of the search that marks on arrival. -/
theorem ends_arriving (hnext : Bounded bound next) (marked agenda found : List Nat) :
    ∃ seen expanded, Ends (arriving order next) ⟨marked.toFinset, agenda, found⟩ expanded
        ⟨seen, [], found ++ spread order bound next marked agenda⟩ ∧
      expanded.Perm (agenda ++ spread order bound next marked agenda) := by
  fun_induction spread order bound next marked agenda generalizing found with
  | case1 marked =>
    rw [List.append_nil]
    exact ⟨marked.toFinset, [], .over rfl, .refl _⟩
  | case2 marked c rest new =>
    rename_i ih
    have hpass : arriving order next ⟨marked.toFinset, c :: rest, found⟩ =
        some ([c], ⟨(new ++ marked).toFinset, order.add new rest, found ++ new⟩) :=
      congrArg (fun s => some ([c], s)) (foldl_meet (hnext c))
    obtain ⟨seen, later, h, hperm⟩ := ih (found ++ new)
    -- what is still to go on from is the rest of the agenda and what is new
    have hlater := hperm.trans ((order.add_perm new rest).append_right _)
    rw [List.append_assoc] at h hlater
    exact ⟨seen, [c] ++ later, .again hpass h, hlater.cons c⟩

/-- The loop that starts with a number. -/
theorem ends_arriving_from (hnext : Bounded bound next) (c : Nat) :
    ∃ expanded last,
      Ends (arriving order next) { seen := {c}, agenda := [c] } expanded last ∧
        expanded.Nodup ∧ last.found = spread order bound next [c] [c] := by
  obtain ⟨seen, expanded, h, hperm⟩ := ends_arriving hnext [c] [c] []
  refine ⟨_, _, h, ?_, rfl⟩
  rw [hperm.nodup_iff, List.singleton_append, List.nodup_cons]
  exact ⟨fun hc => not_mem_of_mem_spread hc List.mem_cons_self, nodup_spread⟩

end Reach

end StableNames
