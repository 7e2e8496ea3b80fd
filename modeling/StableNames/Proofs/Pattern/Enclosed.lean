-- Patterns in a group. What is read of a pattern alone is read of it
-- between `^(?:` and `)$` too, up to a parenthesis that closes no group of
-- the pattern.
import StableNames.Pattern.Basic
import StableNames.Proofs.Pattern.ClosingSteps
import StableNames.Proofs.Pattern.Matching

namespace StableNames.Pattern

variable {table : CharTable}

namespace Reading

/-! ## Reading to the end -/

/-- Whether reading comes to a parenthesis that closes no group. -/
def unopened (table : CharTable) (r : Reading) : (fuel : Nat) → List Char → Bool
  | 0, _ => false
  | fuel + 1, text =>
    match r.flags.skip text with
    | [] => false
    | c :: rest =>
      (c == ')' && r.groups.isEmpty) ||
        match r.step? table c rest with
        | none => false
        | some (r, rest) => r.unopened table fuel rest

theorem run?_dollar (r : Reading) (n : Nat) :
    r.run? table (n + 2) ['$'] = some (r.addLeaf (.look (endLook r.flags))) := by
  rw [run?, Flags.skip_dollar]
  show (r.addLeaf (.look (endLook r.flags))).run? table (n + 1) [] = _
  rw [run?, Flags.skip_nil]

theorem groups_of_run?_dollar {r r₁ : Reading} {n : Nat} (hrun : r.run? table n ['$'] = some r₁) :
    r₁.groups = r.groups := by
  rcases n with _ | _ | n
  · cases hrun
  · rw [run?, Flags.skip_dollar] at hrun
    cases hrun
  · rw [run?_dollar] at hrun
    cases hrun
    rfl

/-- Where a step has read on, the groups around stay open. -/
theorem groups_of_pastStep {r r₁ : Reading} {text : List Char} (h : PastStep r text)
    {gs : List Group} (hgs : gs ≠ []) {n : Nat} (hrun : (r.under gs).run? table n text = some r₁) :
    r₁.groups ≠ [] := by
  rcases h with rfl | ⟨more, rfl, hmore⟩
  · rw [groups_of_run?_dollar hrun]
    exact List.append_ne_nil_of_right_ne_nil _ hgs
  · cases n with
    | zero => cases hrun
    | succ n =>
      have hbounds : bounds? (r.under gs).flags more = none := bounds?_closing _ hmore
      have hstep : (r.under gs).step? table '\x7b' more = none := by
        show (bounds? (r.under gs).flags more).bind _ = none
        rw [hbounds]
        rfl
      rw [run?, Flags.skip_brace] at hrun
      simp only [hstep] at hrun
      cases hrun

/-- A reading that ends for the text alone comes to the closing, or to the end where a remark has
swallowed it; one that fails does not end with the groups around closed. -/
theorem run?_goesOn {n : Nat} : ∀ {r : Reading} {text text' : List Char}, GoesOn text text' →
    text.length < n → r.unopened table n text = false →
    (∃ r₁, r.run? table n text = some r₁ ∧
      ((∀ gs k, (r.under gs).run? table (n + k) text' = some (r₁.under gs)) ∨
        ∃ m, ∀ gs k, (r.under gs).run? table (n + k) text' =
          (r₁.under gs).run? table (m + 1 + k) closing)) ∨
    (r.run? table n text = none ∧ ∀ gs k r₁, gs ≠ [] →
      (r.under gs).run? table (n + k) text' = some r₁ → r₁.groups ≠ []) := by
  induction n with
  | zero =>
    intro r text text' _ hn
    omega
  | succ n ih =>
    intro r text text' h hn hopen
    have hskip := h.skip r.flags
    have hlength := r.flags.skip_length_le text
    have hflags : ∀ gs, (r.under gs).flags = r.flags := fun _ => rfl
    cases hs : r.flags.skip text with
    | nil =>
      rw [hs] at hskip
      refine Or.inl ⟨r, by rw [run?, hs], ?_⟩
      rcases GoesOn.nil_iff.1 hskip with hs' | hs'
      · refine Or.inr ⟨n, fun gs k => ?_⟩
        rw [Nat.add_right_comm, run?, run?, hflags, hs', r.flags.skip_closing]
      · refine Or.inl fun gs k => ?_
        rw [Nat.add_right_comm, run?, hflags, hs']
    | cons c rest =>
      rw [hs] at hskip hlength
      obtain ⟨rest', hs', hon⟩ := GoesOn.cons_iff.1 hskip
      have hstep := step?_follows table hon r c
      rw [unopened, hs] at hopen
      obtain ⟨hclose, hmore⟩ := Bool.or_eq_false_iff.1 hopen
      have hclose : ¬(c = ')' ∧ r.groups = []) := by
        rintro ⟨rfl, hgroups⟩
        rw [hgroups] at hclose
        cases hclose
      have hrun : r.run? table (n + 1) text =
          (r.step? table c rest).bind fun p => p.1.run? table n p.2 := by
        rw [run?, hs]
      have hrun' : ∀ gs k, (r.under gs).run? table (n + 1 + k) text' =
          (r.step? table c rest').bind fun p => (p.1.under gs).run? table (n + k) p.2 := by
        intro gs k
        rw [Nat.add_right_comm, run?, hflags, hs']
        simp only
        rw [step?_under table r gs rest' hclose]
        rcases r.step? table c rest' with _ | ⟨r₁, rest₁⟩ <;> rfl
      simp only [hrun, hrun']
      generalize r.step? table c rest = a at *
      generalize r.step? table c rest' = b at *
      cases hstep with
      | refused => exact Or.inr ⟨rfl, by rintro gs k r₁ _ ⟨⟩⟩
      | @read r₁ rest₁ rest₁' hon₁ hle =>
        have hfuel : rest₁.length < n := by
          rw [List.length_cons] at hlength
          omega
        exact ih hon₁ hfuel hmore
      | past hpast => exact Or.inr ⟨rfl, fun gs k r₁ hgs => groups_of_pastStep hpast hgs⟩

theorem under_nil (r : Reading) : r.under [] = r := by
  unfold under
  rw [List.append_nil]

/-- The group that is open after `^(?:`. -/
def outermost : Group :=
  { around := ({} : Branches).add (.node { regex := .look .textStart }), flags := {} }

theorem run?_start (n : Nat) (text : List Char) :
    ({} : Reading).run? table (n + 2) ('^' :: '(' :: '?' :: ':' :: text) =
      (({} : Reading).under [outermost]).run? table n text := rfl

/-- The parenthesis, and then the dollar sign and the end of the text. -/
theorem run?_closing_eq (r : Reading) (n : Nat) :
    r.run? table (n + 1) closing = r.close?.bind fun r => r.run? table n ['$'] := by
  rw [run?, Flags.skip_closing]
  show (r.close?.map (·, ['$'])).bind _ = _
  rcases r.close? with _ | r₁ <;> rfl

/-- The closing closes the outermost group. -/
theorem run?_closing {r : Reading} (h : r.groups = []) (n : Nat) :
    (r.under [outermost]).run? table (n + 3) closing = some
      { groups := []
        branches := ⟨[.node { regex := .look .textEnd },
          .node { r.branches.close with depth := r.branches.close.depth + 1 },
          .node { regex := .look .textStart }], []⟩
        flags := {}
        names := r.names } := by
  have hgroups : (r.under [outermost]).groups = [outermost] := by simp [under, h]
  rw [run?_closing_eq, close?, hgroups]
  simp only [Option.bind_some]
  rw [run?_dollar]
  rfl

theorem run?_closing_eq_none {r : Reading} (h : r.groups = []) (n : Nat) :
    r.run? table n closing = none := by
  cases n with
  | zero => rfl
  | succ n =>
    rw [run?_closing_eq, close?, h]
    rfl

theorem groups_of_run?_closing {r r₁ : Reading} (h : r.groups ≠ []) {gs : List Group}
    (hgs : gs ≠ []) {n : Nat} (hrun : (r.under gs).run? table n closing = some r₁) :
    r₁.groups ≠ [] := by
  cases n with
  | zero => cases hrun
  | succ n =>
    rw [run?_closing_eq, close?_under r gs h] at hrun
    rcases hclose : r.close? with _ | r₂
    · rw [hclose] at hrun
      cases hrun
    rw [hclose] at hrun
    have hgroups : r₁.groups = (r₂.under gs).groups := groups_of_run?_dollar hrun
    rw [hgroups]
    exact List.append_ne_nil_of_right_ne_nil _ hgs

end Reading

/-- Whether a pattern has a parenthesis that closes no group. -/
def unopened (table : CharTable) (source : String) : Bool :=
  ({} : Reading).unopened table (source.toList.length + 1) source.toList

/-- The expression of a reading, if no group is open. -/
def Reading.finish? (r : Reading) : Option Node :=
  if r.groups.isEmpty then some r.branches.close else none

theorem Reading.finish?_of_nil {r : Reading} (h : r.groups = []) :
    r.finish? = some r.branches.close := by
  rw [finish?, h]
  rfl

theorem Reading.finish?_of_ne {r : Reading} (h : r.groups ≠ []) : r.finish? = none := by
  rw [finish?, if_neg (by simpa using h)]

theorem Reading.bind_finish?_eq_none {r? : Option Reading}
    (h : ∀ r, r? = some r → r.groups ≠ []) : r?.bind Reading.finish? = none := by
  cases r? with
  | none => rfl
  | some r => exact Reading.finish?_of_ne (h r rfl)

/-- The expression of a text, of whatever depth. -/
def node? (table : CharTable) (text : String) : Option Node :=
  (({} : Reading).run? table (text.toList.length + 1) text.toList).bind Reading.finish?

theorem parse?_eq (text : String) : parse? table text =
    (node? table text).bind fun n => if n.depth ≤ nestLimit then some n.regex else none := by
  unfold parse? node?
  simp only
  rcases ({} : Reading).run? table (text.toList.length + 1) text.toList with _ | r
  · rfl
  simp only [Option.bind_eq_bind, Option.bind_some, Reading.finish?, guard]
  rcases r.groups with _ | ⟨g, groups⟩
  · by_cases hdepth : r.branches.close.depth ≤ nestLimit
    · simp [hdepth]
    · simp [hdepth, failure]
  · rfl

/-- A pattern that closes no group of others is read in a group as it is read alone. Where it ends
in a remark, the remark swallows the end of the group. -/
theorem node?_enclosed {source : String} (h : unopened table source = false) :
    (node? table source = none ∧ node? table (enclose source) = none) ∨
    ∃ n, node? table source = some n ∧
      ((node? table (source ++ ")$") = none ∧
          node? table (enclose source) = some ⟨n.regex.whole, n.depth + 2⟩) ∨
        (node? table (source ++ ")$") = some n ∧ node? table (enclose source) = none)) := by
  have hinner : (source ++ ")$").toList = source.toList ++ closing := by
    rw [String.toList_append]
    rfl
  have houter : (enclose source).toList =
      '^' :: '(' :: '?' :: ':' :: (source.toList ++ closing) := by
    rw [enclose, String.append_assoc, String.toList_append, hinner]
    rfl
  have hrun := Reading.run?_goesOn (r := {}) (Or.inl rfl : GoesOn _ (source.toList ++ closing))
    (Nat.lt_succ_self _) h
  have hrunInner : ({} : Reading).run? table ((source.toList ++ closing).length + 1)
      (source.toList ++ closing) =
        (({} : Reading).under []).run? table (source.toList.length + 1 + 2)
          (source.toList ++ closing) := by
    rw [Reading.under_nil, List.length_append]
    rfl
  have hrunOuter : ({} : Reading).run? table
      (('^' :: '(' :: '?' :: ':' :: (source.toList ++ closing)).length + 1)
      ('^' :: '(' :: '?' :: ':' :: (source.toList ++ closing)) =
        (({} : Reading).under [Reading.outermost]).run? table (source.toList.length + 1 + 4)
          (source.toList ++ closing) := by
    rw [← Reading.run?_start]
    simp [closing]
  have hnil : [Reading.outermost] ≠ [] := List.cons_ne_nil _ _
  unfold node?
  rw [hinner, houter, hrunInner, hrunOuter]
  rcases hrun with ⟨r, hread, hend⟩ | ⟨hnone, hopen⟩
  · have hunder : (r.under [Reading.outermost]).groups ≠ [] :=
      List.append_ne_nil_of_right_ne_nil _ hnil
    rw [hread, Option.bind_some]
    by_cases hgroups : r.groups = []
    · refine Or.inr ⟨_, Reading.finish?_of_nil hgroups, ?_⟩
      rcases hend with hswallowed | ⟨m, hclosing⟩
      · rw [hswallowed, hswallowed, Reading.under_nil]
        exact Or.inr ⟨Reading.finish?_of_nil hgroups, Reading.finish?_of_ne hunder⟩
      · rw [hclosing, hclosing, Reading.under_nil, Reading.run?_closing_eq_none hgroups,
          Reading.run?_closing hgroups, Option.bind_some, Reading.finish?_of_nil rfl]
        refine Or.inl ⟨rfl, ?_⟩
        simp [Branches.close, Branches.sequence, Part.toNode, Regex.whole]
    · refine Or.inl ⟨Reading.finish?_of_ne hgroups, Reading.bind_finish?_eq_none ?_⟩
      intro r₁ hr₁
      rcases hend with hswallowed | ⟨m, hclosing⟩
      · rw [hswallowed] at hr₁
        cases hr₁
        exact hunder
      · rw [hclosing] at hr₁
        exact Reading.groups_of_run?_closing hgroups hnil hr₁
  · rw [hnone]
    exact Or.inl ⟨rfl, Reading.bind_finish?_eq_none fun r hr => hopen _ _ r hnil hr⟩

/-- A pattern with a parenthesis that closes no group is refused. -/
theorem Reading.run?_of_unopened {n : Nat} : ∀ {r : Reading} {text : List Char},
    r.unopened table n text = true → r.run? table n text = none := by
  induction n with
  | zero =>
    rintro r text ⟨⟩
  | succ n ih =>
    intro r text h
    rw [unopened] at h
    rw [run?]
    rcases hs : r.flags.skip text with _ | ⟨c, rest⟩
    · rw [hs] at h
      cases h
    rw [hs] at h
    simp only at h ⊢
    rcases Bool.or_eq_true_iff.1 h with hclose | hmore
    · obtain ⟨hc, hgroups⟩ := Bool.and_eq_true_iff.1 hclose
      obtain rfl := eq_of_beq hc
      have hstep : r.step? table ')' rest = none := by
        show r.close?.map _ = none
        rw [close?, List.isEmpty_iff.1 hgroups]
        rfl
      rw [hstep]
      rfl
    · rcases hstep : r.step? table c rest with _ | ⟨r₁, rest₁⟩
      · rfl
      · rw [hstep] at hmore
        exact ih hmore

theorem node?_of_unopened {source : String} (h : unopened table source = true) :
    node? table source = none := by
  unfold node?
  rw [Reading.run?_of_unopened h]
  rfl

end StableNames.Pattern
