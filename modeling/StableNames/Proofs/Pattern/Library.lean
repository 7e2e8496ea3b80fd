-- What is known of a library of regular expressions: it accepts what its
-- documentation says is a pattern, and matches where that says it does.
-- What its tables say of characters, and which machines are too large, is
-- for the library to say. A pattern that can be put into a group is
-- accepted there just if it is accepted alone.
import StableNames.Proofs.Pattern.Enclosed

namespace StableNames.Pattern

variable {library : Library} {table : CharTable} {fits : String → Prop} {source : String}

/-- A library that keeps to the syntax and the meaning of its expressions, with the tables of
characters that it has. A text is accepted if it is a pattern and the machine for it fits, and
then a name is matched if the expression matches somewhere in it. -/
structure Library.Documented (library : Library) (table : CharTable) (fits : String → Prop) :
    Prop where
  accepts : ∀ text, (library.compile? text).isSome ↔ (parse? table text).isSome ∧ fits text
  answers : ∀ {text matchesIn r}, library.compile? text = some matchesIn →
    parse? table text = some r → ∀ name, matchesIn name = true ↔ r.Occurs name

theorem Library.Documented.exists_parse (h : library.Documented table fits)
    {matchesIn : String → Bool} (hcompile : library.compile? source = some matchesIn) :
    ∃ r, parse? table source = some r ∧ ∀ name, matchesIn name = true ↔ r.Occurs name := by
  have hsome : (library.compile? source).isSome := by
    rw [hcompile]
    rfl
  obtain ⟨r, hr⟩ := Option.isSome_iff_exists.1 ((h.accepts source).1 hsome).1
  exact ⟨r, hr, h.answers hcompile hr⟩

/-! ## Patterns in a group -/

/-- A pattern that can be put into a group between the start and the end: it closes no group that
it has not opened, it does not end in a remark, two more levels are within the limit of depth, and
the machine for it fits in the group just if it fits alone. -/
structure Enclosable (table : CharTable) (fits : String → Prop) (source : String) : Prop where
  opened : unopened table source = false
  ended : (parse? table source).isSome → parse? table (source ++ ")$") = none
  nested : ∀ n, node? table source = some n → n.depth ≤ nestLimit → n.depth + 2 ≤ nestLimit
  fits : (parse? table source).isSome → (fits (enclose source) ↔ fits source)

theorem enclosable_iff : Enclosable table fits source ↔
    unopened table source = false ∧
      ((parse? table source).isSome → (parse? table (source ++ ")$")).isNone) ∧
      ((node? table source).all fun n => n.depth ≤ nestLimit → n.depth + 2 ≤ nestLimit) = true ∧
      ((parse? table source).isSome → (fits (enclose source) ↔ fits source)) := by
  simp only [Option.isNone_iff_eq_none, Option.all_eq_true, decide_eq_true_eq]
  exact ⟨fun ⟨h₁, h₂, h₃, h₄⟩ => ⟨h₁, h₂, h₃, h₄⟩, fun ⟨h₁, h₂, h₃, h₄⟩ => ⟨h₁, h₂, h₃, h₄⟩⟩

instance [DecidablePred fits] : Decidable (Enclosable table fits source) :=
  decidable_of_iff' _ enclosable_iff

/-- In the group, the expression stands between the start and the end. -/
theorem parse?_enclose (h : Enclosable table fits source) :
    parse? table (enclose source) = (parse? table source).map Regex.whole := by
  rw [parse?_eq, parse?_eq]
  rcases node?_enclosed h.opened with ⟨hnone, hnone'⟩ |
    ⟨n, hn, ⟨hended, hwhole⟩ | ⟨hremark, hnone'⟩⟩
  · rw [hnone, hnone']
    rfl
  · rw [hn, hwhole]
    simp only [Option.bind_some]
    by_cases hdepth : n.depth ≤ nestLimit
    · rw [if_pos hdepth, if_pos (h.nested n hn hdepth)]
      rfl
    · rw [if_neg hdepth, if_neg (by omega)]
      rfl
  · have hsame : parse? table (source ++ ")$") = parse? table source := by
      rw [parse?_eq, parse?_eq, hremark, hn]
    have hrefused : parse? table source = none := by
      by_contra hne
      exact hne (hsame ▸ h.ended (Option.isSome_iff_ne_none.2 hne))
    rw [← parse?_eq source, hrefused, hnone']
    rfl

/-- A pattern that can be put into a group is accepted in it just if it is accepted alone. -/
theorem Library.Documented.isSome_enclose (hlib : library.Documented table fits)
    (h : Enclosable table fits source) :
    (library.compile? (enclose source)).isSome = (library.compile? source).isSome := by
  rw [Bool.eq_iff_iff, hlib.accepts, hlib.accepts, parse?_enclose h, Option.isSome_map]
  exact and_congr_right h.fits

/-- What a pattern in the group matches in, it matches as a whole. -/
theorem Library.Documented.exists_matches (hlib : library.Documented table fits)
    (h : Enclosable table fits source) {matchesIn : String → Bool}
    (hcompile : library.compile? (enclose source) = some matchesIn) :
    ∃ r, parse? table source = some r ∧ ∀ name, matchesIn name = true ↔ r.Matches name := by
  obtain ⟨r', hr', hanswers⟩ := hlib.exists_parse hcompile
  rw [parse?_enclose h, Option.map_eq_some_iff] at hr'
  obtain ⟨r, hr, rfl⟩ := hr'
  exact ⟨r, hr, fun name => (hanswers name).trans (r.occurs_whole name)⟩

/-- What is accepted alone is accepted in the group only if it can be put there. -/
theorem Library.Documented.isSome_enclose_iff (hlib : library.Documented table fits)
    (h : (library.compile? source).isSome) :
    (library.compile? (enclose source)).isSome ↔ Enclosable table fits source := by
  obtain ⟨hparse, hfits⟩ := (hlib.accepts source).1 h
  constructor
  · intro henclosed
    obtain ⟨hparse', hfits'⟩ := (hlib.accepts _).1 henclosed
    have hopened : unopened table source = false := by
      by_contra hne
      rw [parse?_eq, node?_of_unopened (Bool.eq_true_of_not_eq_false hne)] at hparse
      cases hparse
    rw [parse?_eq] at hparse'
    rcases node?_enclosed hopened with ⟨-, hnone⟩ | ⟨n, hn, ⟨hended, hwhole⟩ | ⟨-, hnone⟩⟩
    · rw [hnone] at hparse'
      cases hparse'
    · refine ⟨hopened, fun _ => by rw [parse?_eq, hended]; rfl, ?_,
        fun _ => iff_of_true hfits' hfits⟩
      intro n' hn' _
      obtain rfl := Option.some.inj (hn.symm.trans hn')
      rw [hwhole, Option.bind_some] at hparse'
      by_contra hdepth
      rw [if_neg hdepth] at hparse'
      cases hparse'
    · rw [hnone] at hparse'
      cases hparse'
  · intro henclosable
    rw [hlib.isSome_enclose henclosable]
    exact h

/-! ## The library that is built in -/

/-- The machine for a text is within the limit of size, as the built-in library estimates it. -/
def WithinLimit (text : String) : Prop :=
  (parse? .carried text).all (·.size ≤ sizeLimit) = true

instance : DecidablePred WithinLimit := fun _ => inferInstanceAs (Decidable (_ = true))

theorem Library.builtIn_compile? (text : String) : builtIn.compile? text =
    (parse? .carried text).bind fun r =>
      if r.size ≤ sizeLimit then some r.matchesIn else none := rfl

theorem Library.builtIn_documented : builtIn.Documented .carried WithinLimit := by
  constructor
  · intro text
    rw [builtIn_compile?, WithinLimit]
    rcases parse? .carried text with _ | r
    · simp
    · by_cases hsize : r.size ≤ sizeLimit <;> simp [hsize]
  · intro text matchesIn r hcompile hr name
    rw [builtIn_compile?, hr, Option.bind_some] at hcompile
    by_cases hsize : r.size ≤ sizeLimit
    · rw [if_pos hsize, Option.some.injEq] at hcompile
      rw [← hcompile]
      exact r.matchesIn_iff name
    · rw [if_neg hsize] at hcompile
      cases hcompile

/-- A parenthesis that closes the group around it lets what follows match at the end of a name. -/
example : (Library.builtIn.compile? "a)|(?:b").isNone ∧
    (whole? "a)|(?:b").any (·.matchesIn "xyz/b") = true ∧
    ¬Enclosable .carried WithinLimit "a)|(?:b" :=
  ⟨by decide, by decide, by decide⟩

/-- A remark at the end swallows the end of the group around it. -/
example : (Library.builtIn.compile? "(?x)a # b").isSome ∧ (whole? "(?x)a # b").isNone ∧
    ¬Enclosable .carried WithinLimit "(?x)a # b" :=
  ⟨by decide, by decide, by decide⟩

end StableNames.Pattern
