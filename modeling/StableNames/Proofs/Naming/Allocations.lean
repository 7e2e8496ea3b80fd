-- The allocator under any calls: symbols ask for names, in their own
-- category or another one, and counters are set, but never back. What it
-- remembers is what it gave out, so a name stays with one symbol for good,
-- and the numbers of a category only go up.
import Mathlib.Data.List.Induction
import StableNames.Proofs.Naming.Numbers

namespace StableNames.Allocator

/-! ## Calls -/

/-- A symbol asks for a name in a category, or the next number of a category is set. -/
inductive Call where
  | request (symbol : Symbol) (category : Category)
  | setCounter (category : Category) (value : Nat)
deriving DecidableEq, Repr

/-- A name that was given to a symbol in a category. -/
structure Grant where
  symbol : Symbol
  category : Category
  name : String
deriving DecidableEq, Repr

/-- What a call gives: nothing if it is refused, or asks for no name. -/
def grant? (a : Allocator) : Call → Option Grant
  | .request s c => (a.allocate s c).toOption.map fun (name, _) => ⟨s, c, name⟩
  | .setCounter _ _ => none

/-- The number that a call hands out in a category, to a symbol that had none. -/
def newNumber? (a : Allocator) (category : Category) : Call → Option Nat
  | .request s c =>
    if c = category ∧ a.numbers.get? s = none then some (a.next c) else none
  | .setCounter _ _ => none

/-- The allocator after a call. A request that is refused leaves it as it was. -/
def afterCall (a : Allocator) : Call → Allocator
  | .request s c =>
    match a.allocate s c with
    | .ok (_, a') => a'
    | .error _ => a
  | .setCounter c n => a.setCounter c n

/-- The allocator after calls, in order. -/
def after (a : Allocator) (calls : List Call) : Allocator := calls.foldl afterCall a

/-- What calls give, in order. -/
def grants (a : Allocator) : List Call → List Grant
  | [] => []
  | call :: rest => (a.grant? call).toList ++ (a.afterCall call).grants rest

/-- The numbers that calls newly hand out in a category, in order. -/
def newNumbers (a : Allocator) (category : Category) : List Call → List Nat
  | [] => []
  | call :: rest =>
    (a.newNumber? category call).toList ++ (a.afterCall call).newNumbers category rest

/-- A call that sets no counter back. -/
def Allows (a : Allocator) : Call → Prop
  | .request _ _ => True
  | .setCounter c n => a.next c ≤ n

/-- No call sets back the counter that it finds. -/
def Forward (a : Allocator) : List Call → Prop
  | [] => True
  | call :: rest => a.Allows call ∧ (a.afterCall call).Forward rest

instance (a : Allocator) : (call : Call) → Decidable (a.Allows call)
  | .request _ _ => inferInstanceAs (Decidable True)
  | .setCounter c n => inferInstanceAs (Decidable (a.next c ≤ n))

instance decidableForward : (a : Allocator) → (calls : List Call) → Decidable (a.Forward calls)
  | _, [] => inferInstanceAs (Decidable True)
  | a, call :: rest =>
    have := decidableForward (a.afterCall call) rest
    inferInstanceAs (Decidable (a.Allows call ∧ (a.afterCall call).Forward rest))

variable {a : Allocator} {calls : List Call} {call : Call} {s : Symbol} {c category : Category}
  {n : Nat}

theorem after_concat (a : Allocator) (calls : List Call) (call : Call) :
    a.after (calls ++ [call]) = (a.after calls).afterCall call := by
  unfold after
  rw [List.foldl_append]
  rfl

theorem grants_concat (a : Allocator) (calls : List Call) (call : Call) :
    a.grants (calls ++ [call]) = a.grants calls ++ ((a.after calls).grant? call).toList := by
  induction calls generalizing a with
  | nil => exact List.append_nil _
  | cons first rest ih =>
    rw [List.cons_append, grants, ih, grants, List.append_assoc]
    rfl

theorem newNumbers_concat (a : Allocator) (category : Category) (calls : List Call)
    (call : Call) :
    a.newNumbers category (calls ++ [call]) =
      a.newNumbers category calls ++ ((a.after calls).newNumber? category call).toList := by
  induction calls generalizing a with
  | nil => exact List.append_nil _
  | cons first rest ih =>
    rw [List.cons_append, newNumbers, ih, newNumbers, List.append_assoc]
    rfl

theorem forward_concat :
    a.Forward (calls ++ [call]) ↔ a.Forward calls ∧ (a.after calls).Allows call := by
  induction calls generalizing a with
  | nil => exact and_comm
  | cons first rest ih =>
    rw [List.cons_append, Forward, ih, Forward, and_assoc]
    rfl

/-! ## One call -/

theorem allocate_of_number (hs : a.numbers.get? s = some (c, n)) :
    a.allocate s c = .ok (c.name n, a) := by
  unfold allocate
  rw [hs]
  exact if_pos rfl

theorem allocate_of_other_number (hs : a.numbers.get? s = some (c, n)) (hne : c ≠ category) :
    a.allocate s category = .error (.reassigned s c n category) := by
  unfold allocate
  rw [hs]
  exact if_neg hne

theorem allocate_of_none (hs : a.numbers.get? s = none) :
    a.allocate s c =
      .ok (c.name (a.next c),
        ⟨a.counters.set c (a.next c + 1), a.numbers.insert s (c, a.next c)⟩) := by
  unfold allocate
  rw [hs]

/-- All that a call can do: what it gives, and what it leaves behind. -/
inductive Effect (a : Allocator) : Call → Option Grant → Allocator → Prop
  | known {s : Symbol} {c : Category} {n : Nat} (hs : a.numbers.get? s = some (c, n)) :
      Effect a (.request s c) (some ⟨s, c, c.name n⟩) a
  | refused {s : Symbol} {c given : Category} {n : Nat}
      (hs : a.numbers.get? s = some (given, n)) (hne : given ≠ c) :
      Effect a (.request s c) none a
  | anew {s : Symbol} {c : Category} (hs : a.numbers.get? s = none) :
      Effect a (.request s c) (some ⟨s, c, c.name (a.next c)⟩)
        ⟨a.counters.set c (a.next c + 1), a.numbers.insert s (c, a.next c)⟩
  | set (c : Category) (n : Nat) : Effect a (.setCounter c n) none (a.setCounter c n)

theorem effect_afterCall (a : Allocator) (call : Call) :
    a.Effect call (a.grant? call) (a.afterCall call) := by
  cases call with
  | setCounter c n => exact .set c n
  | request s c =>
    simp only [grant?, afterCall]
    rcases hs : a.numbers.get? s with _ | ⟨given, n⟩
    · rw [allocate_of_none hs]
      exact .anew hs
    · by_cases hgiven : given = c
      · subst hgiven
        rw [allocate_of_number hs]
        exact .known hs
      · rw [allocate_of_other_number hs hgiven]
        exact .refused hs hgiven

/-- A counter that is not set back keeps the allocator tidy. -/
theorem Tidy.setCounter {first : Counters} (h : a.Tidy first) (hn : a.next c ≤ n) :
    (a.setCounter c n).Tidy first := by
  have hgrows : a.counters.Grows (a.counters.set c n) := .set_of_le hn
  refine ⟨h.grows.trans hgrows, h.first_le, ?_, h.inj⟩
  intro s c' k hs
  obtain ⟨b, hb, hlt⟩ := h.lt_counter s c' k hs
  obtain ⟨b', hb', hle⟩ := hgrows.get? hb
  exact ⟨b', hb', Nat.lt_of_lt_of_le hlt hle⟩

theorem newNumber?_of_number (hs : a.numbers.get? s = some (c, n)) (category c' : Category) :
    a.newNumber? category (.request s c') = none := by
  simp [newNumber?, hs]

theorem newNumber?_of_none (hs : a.numbers.get? s = none) (category c : Category) :
    a.newNumber? category (.request s c) = if c = category then some (a.next c) else none := by
  simp [newNumber?, hs]

/-! ## All calls -/

/-- What the allocator remembers is what it gave: these names, and in each category newly
these numbers. -/
structure Remembers (a : Allocator) (given : List Grant) (handedOut : Category → List Nat) :
    Prop where
  tidy : a.Tidy {}
  given_iff : ∀ g, g ∈ given ↔
    ∃ n, a.numbers.get? g.symbol = some (g.category, n) ∧ g.name = g.category.name n
  handedOut_iff : ∀ c n, n ∈ handedOut c ↔ ∃ s, a.numbers.get? s = some (c, n)
  increasing : ∀ c, (handedOut c).Pairwise (· < ·)
  allocated : a.allocated = (given.map (·.symbol)).eraseDups.length

namespace Remembers

variable {given : List Grant} {handedOut : Category → List Nat}

theorem nothing : Remembers {} [] fun _ => [] where
  tidy := @tidy_of_numbers_eq {} rfl
  given_iff := by simp
  handedOut_iff := by simp
  increasing := by simp
  allocated := rfl

theorem mem_symbols (h : a.Remembers given handedOut) :
    s ∈ given.map (·.symbol) ↔ ∃ e, a.numbers.get? s = some e := by
  constructor
  · intro hs
    obtain ⟨g, hg, rfl⟩ := List.mem_map.1 hs
    obtain ⟨n, hn, -⟩ := (h.given_iff g).1 hg
    exact ⟨_, hn⟩
  · rintro ⟨⟨c, n⟩, hn⟩
    exact List.mem_map.2 ⟨⟨s, c, c.name n⟩, (h.given_iff _).2 ⟨n, hn, rfl⟩, rfl⟩

/-- A symbol that has a name is given it once more. -/
theorem again (h : a.Remembers given handedOut) (hs : a.numbers.get? s = some (c, n)) :
    a.Remembers (given ++ [⟨s, c, c.name n⟩]) handedOut := by
  have hmem : (⟨s, c, c.name n⟩ : Grant) ∈ given := (h.given_iff _).2 ⟨n, hs, rfl⟩
  refine ⟨h.tidy, ?_, h.handedOut_iff, h.increasing, ?_⟩
  · intro g
    rw [← h.given_iff, List.mem_append, List.mem_singleton, or_iff_left_of_imp]
    rintro rfl
    exact hmem
  · have hsymbol : s ∈ given.map (·.symbol) := List.mem_map_of_mem hmem
    rw [List.map_append, List.eraseDups_append, h.allocated, List.map_singleton]
    simp only [List.removeAll, List.filter_cons, List.elem_eq_true_of_mem hsymbol]
    simp

/-- A symbol that has no name yet gets the next number. -/
theorem anew (h : a.Remembers given handedOut) (hs : a.numbers.get? s = none) (c : Category) :
    Remembers ⟨a.counters.set c (a.next c + 1), a.numbers.insert s (c, a.next c)⟩
      (given ++ [⟨s, c, c.name (a.next c)⟩])
      fun category => handedOut category ++
        (if c = category then some (a.next c) else none).toList := by
  refine ⟨h.tidy.insert s c, ?given_iff, ?handedOut_iff, ?increasing, ?allocated⟩
  case given_iff =>
    intro g
    rw [List.mem_append, List.mem_singleton, h.given_iff]
    simp only [Assoc.get?_insert_eq_some hs]
    constructor
    · rintro (⟨n, hn, hname⟩ | rfl)
      · exact ⟨n, .inl hn, hname⟩
      · exact ⟨a.next c, .inr ⟨rfl, rfl⟩, rfl⟩
    · rintro ⟨n, hn | ⟨hsymbol, hentry⟩, hname⟩
      · exact .inl ⟨n, hn, hname⟩
      · obtain ⟨symbol, category, name⟩ := g
        obtain rfl := hsymbol
        obtain ⟨rfl, rfl⟩ := Prod.mk.inj hentry
        exact .inr (congrArg _ hname)
  case handedOut_iff =>
    intro category n
    rw [List.mem_append, h.handedOut_iff]
    simp only [Assoc.get?_insert_eq_some hs]
    constructor
    · rintro (⟨t, ht⟩ | hn)
      · exact ⟨t, .inl ht⟩
      · split at hn
        · next heq =>
          obtain rfl := List.mem_singleton.1 hn
          exact ⟨s, .inr ⟨rfl, by rw [heq]⟩⟩
        · cases hn
    · rintro ⟨t, ht | ⟨-, hentry⟩⟩
      · exact .inl ⟨t, ht⟩
      · obtain ⟨rfl, rfl⟩ := Prod.mk.inj hentry
        exact .inr (by simp)
  case increasing =>
    intro category
    rw [List.pairwise_append]
    refine ⟨h.increasing category, by split <;> simp, ?_⟩
    intro n hn k hk
    split at hk
    · next heq =>
      obtain rfl := List.mem_singleton.1 hk
      obtain ⟨t, ht⟩ := (h.handedOut_iff category n).1 hn
      exact heq ▸ h.tidy.lt_next ht
    · cases hk
  case allocated =>
    have hsymbol : s ∉ given.map (·.symbol) := by
      rw [h.mem_symbols, hs]
      rintro ⟨e, he⟩
      cases he
    rw [List.map_append, List.eraseDups_append, List.length_append, ← h.allocated,
      List.map_singleton]
    unfold Allocator.allocated
    rw [Assoc.size_insert_of_none hs]
    simp only [List.removeAll, List.filter_cons, List.elem_eq_mem, hsymbol]
    simp [List.eraseDups_cons]

theorem setCounter (h : a.Remembers given handedOut) (hn : a.next c ≤ n) :
    (a.setCounter c n).Remembers given handedOut where
  tidy := h.tidy.setCounter hn
  given_iff := h.given_iff
  handedOut_iff := h.handedOut_iff
  increasing := h.increasing
  allocated := h.allocated

theorem afterCall (h : a.Remembers given handedOut) (hallowed : a.Allows call) :
    (a.afterCall call).Remembers (given ++ (a.grant? call).toList)
      fun c => handedOut c ++ (a.newNumber? c call).toList := by
  have heffect := effect_afterCall a call
  generalize a.grant? call = grant, a.afterCall call = a' at heffect
  cases heffect with
  | known hs => simpa [newNumber?_of_number hs] using h.again hs
  | refused hs hne => simpa [newNumber?_of_number hs] using h
  | anew hs =>
    simp only [newNumber?_of_none hs]
    exact h.anew hs _
  | set c n => simpa [newNumber?] using h.setCounter hallowed

end Remembers

theorem remembers_after (h : Forward {} calls) :
    (after {} calls).Remembers (grants {} calls) fun c => newNumbers {} c calls := by
  induction calls using List.reverseRecOn with
  | nil => exact .nothing
  | append_singleton calls call ih =>
    obtain ⟨hcalls, hcall⟩ := forward_concat.1 h
    rw [after_concat, grants_concat]
    simp only [newNumbers_concat]
    exact (ih hcalls).afterCall hcall

/-- Over any calls of a new allocator that set no counter back: a symbol that was given a name is
given it again, whatever came in between, and in another category it is refused, which changes
nothing. No two symbols have one name. The numbers that are newly handed out in a category, which
are those of its names, only go up and are below its counter. As many symbols are counted as
were named. -/
theorem names_are_given_for_good (h : Forward {} calls) :
    (∀ g ∈ grants {} calls,
      (after {} calls).allocate g.symbol g.category = .ok (g.name, after {} calls) ∧
      ∀ c ≠ g.category,
        (∃ n, g.name = g.category.name n ∧
          (after {} calls).allocate g.symbol c = .error (.reassigned g.symbol g.category n c)) ∧
        after {} (calls ++ [.request g.symbol c]) = after {} calls) ∧
    (∀ g ∈ grants {} calls, ∀ g' ∈ grants {} calls, g.name = g'.name → g = g') ∧
    (∀ c, (newNumbers {} c calls).Pairwise (· < ·) ∧
      (∀ n ∈ newNumbers {} c calls, n < (after {} calls).next c) ∧
      ∀ name, (∃ g ∈ grants {} calls, g.category = c ∧ g.name = name) ↔
        ∃ n ∈ newNumbers {} c calls, name = c.name n) ∧
    (after {} calls).allocated = ((grants {} calls).map (·.symbol)).eraseDups.length := by
  have hall := remembers_after h
  refine ⟨?given, ?apart, ?numbers, hall.allocated⟩
  case given =>
    intro g hg
    obtain ⟨n, hn, hname⟩ := (hall.given_iff g).1 hg
    refine ⟨by rw [hname, allocate_of_number hn], ?_⟩
    intro c hc
    have hrefused := allocate_of_other_number hn (Ne.symm hc)
    refine ⟨⟨n, hname, hrefused⟩, ?_⟩
    rw [after_concat, afterCall, hrefused]
  case apart =>
    intro g hg g' hg' heq
    obtain ⟨n, hn, hname⟩ := (hall.given_iff g).1 hg
    obtain ⟨n', hn', hname'⟩ := (hall.given_iff g').1 hg'
    obtain ⟨hcategory, rfl⟩ := Category.name_inj (hname.symm.trans (heq.trans hname'))
    rw [hcategory] at hn
    have hsymbol := hall.tidy.inj _ _ _ hn hn'
    cases g
    cases g'
    simp_all
  case numbers =>
    intro c
    refine ⟨hall.increasing c, ?_, ?_⟩
    · intro n hn
      obtain ⟨s, hs⟩ := (hall.handedOut_iff c n).1 hn
      exact hall.tidy.lt_next hs
    · intro name
      constructor
      · rintro ⟨g, hg, rfl, rfl⟩
        obtain ⟨n, hn, hname⟩ := (hall.given_iff g).1 hg
        exact ⟨n, (hall.handedOut_iff _ n).2 ⟨g.symbol, hn⟩, hname⟩
      · rintro ⟨n, hn, rfl⟩
        obtain ⟨s, hs⟩ := (hall.handedOut_iff c n).1 hn
        exact ⟨⟨s, c, c.name n⟩, (hall.given_iff _).2 ⟨n, hs, rfl⟩, rfl, rfl⟩

/-- Two methods, of which one also asks for the name of a field, and a counter that is set
forward twice. -/
def resumedCalls : List Call :=
  [.setCounter .ofMethod 7, .request (.ofMethod 3) .ofMethod, .request (.ofMethod 3) .ofField,
    .setCounter .ofMethod 9, .request (.ofMethod 0) .ofMethod, .request (.ofMethod 3) .ofMethod]

theorem names_are_given_for_good_resumed :
    Forward {} resumedCalls ∧
    grants {} resumedCalls = [⟨.ofMethod 3, .ofMethod, "method_7"⟩,
      ⟨.ofMethod 0, .ofMethod, "method_9"⟩, ⟨.ofMethod 3, .ofMethod, "method_7"⟩] ∧
    newNumbers {} .ofMethod resumedCalls = [7, 9] ∧
    (after {} resumedCalls).allocate (.ofMethod 3) .ofMethod =
      .ok ("method_7", after {} resumedCalls) ∧
    (newNumbers {} .ofMethod resumedCalls).Pairwise (· < ·) := by
  have hforward : Forward {} resumedCalls := by decide
  have hgrants : grants {} resumedCalls = [⟨.ofMethod 3, .ofMethod, "method_7"⟩,
      ⟨.ofMethod 0, .ofMethod, "method_9"⟩, ⟨.ofMethod 3, .ofMethod, "method_7"⟩] := by
    decide
  obtain ⟨hgiven, -, hnumbers, -⟩ := names_are_given_for_good hforward
  have hfirst := (hgiven _ (hgrants ▸ List.mem_cons_self)).1
  exact ⟨hforward, hgrants, by decide, hfirst, (hnumbers .ofMethod).1⟩

end StableNames.Allocator
