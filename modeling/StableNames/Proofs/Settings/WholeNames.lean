-- Patterns for scrambled names match whole names. The first pattern that
-- is none is reported, and then no setting has changed.
import StableNames.Proofs.Pattern.Library
import StableNames.Settings.Basic

namespace StableNames.Settings

open Pattern (Enclosable Library CharTable WithinLimit parse? whole?)

variable {library : Library} {table : CharTable} {fits : String → Prop}

theorem compileAll_cons_of_none {source : String} (h : whole? source library = none)
    (rest : List String) :
    compileAll (source :: rest) library = .error (.invalidPattern source) := by
  unfold compileAll
  rw [List.mapM_cons, h]
  rfl

theorem compileAll_cons_of_some {source : String} {p : Pattern}
    (h : whole? source library = some p) (rest : List String) :
    compileAll (source :: rest) library = (compileAll rest library).map (p :: ·) := by
  unfold compileAll
  rw [List.mapM_cons, h]
  rcases rest.mapM _ with _ | ps <;> rfl

/-- Either all patterns of a list are compiled, or the first that is none is reported. -/
theorem compileAll_cases (library : Library) (sources : List String) :
    ((∀ p ∈ sources, (whole? p library).isSome) ∧
      compileAll sources library = .ok (sources.filterMap (whole? · library))) ∨
    ∃ before source after, sources = before ++ source :: after ∧
      (∀ p ∈ before, (whole? p library).isSome) ∧ whole? source library = none ∧
      compileAll sources library = .error (.invalidPattern source) := by
  induction sources with
  | nil => exact Or.inl ⟨by simp, rfl⟩
  | cons source rest ih =>
    cases hsource : whole? source library with
    | none =>
      exact Or.inr ⟨[], source, rest, rfl, by simp, hsource, compileAll_cons_of_none hsource rest⟩
    | some p =>
      have hsome : (whole? source library).isSome := by
        rw [hsource]
        rfl
      rw [compileAll_cons_of_some hsource]
      rcases ih with ⟨hall, hok⟩ | ⟨before, bad, after, rfl, hbefore, hbad, herror⟩
      · rw [hok, List.filterMap_cons_some (f := (whole? · library)) hsource]
        exact Or.inl ⟨List.forall_mem_cons.2 ⟨hsome, hall⟩, rfl⟩
      · rw [herror]
        exact Or.inr ⟨source :: before, bad, after, rfl,
          List.forall_mem_cons.2 ⟨hsome, hbefore⟩, hbad, rfl⟩

theorem isSome_whole? (hlibrary : library.Documented table fits) {source : String}
    (h : Enclosable table fits source) :
    (whole? source library).isSome = (library.compile? source).isSome := by
  rw [whole?, Option.isSome_map, hlibrary.isSome_enclose h]

theorem isObfuscated_filterMap (hlibrary : library.Documented table fits) (s : Settings)
    {sources : List String} (h : ∀ p ∈ sources, Enclosable table fits p)
    (haccepted : ∀ p ∈ sources, (whole? p library).isSome) (name : String) :
    ({ s with obfuscated := sources.filterMap (whole? · library) }).isObfuscated name = true ↔
      ∃ p ∈ sources, ∃ r, parse? table p = some r ∧ r.Matches name := by
  unfold isObfuscated
  rw [List.any_eq_true]
  simp only [List.mem_filterMap]
  constructor
  · rintro ⟨c, ⟨p, hp, hc⟩, hmatch⟩
    obtain ⟨matchesIn, hcompile, rfl⟩ := Option.map_eq_some_iff.1 hc
    obtain ⟨r, hr, hanswers⟩ := hlibrary.exists_matches (h p hp) hcompile
    exact ⟨p, hp, r, hr, (hanswers name).1 hmatch⟩
  · rintro ⟨p, hp, r, hr, hmatch⟩
    obtain ⟨c, hc⟩ := Option.isSome_iff_exists.1 (haccepted p hp)
    obtain ⟨matchesIn, hcompile, rfl⟩ := Option.map_eq_some_iff.1 hc
    obtain ⟨r', hr', hanswers⟩ := hlibrary.exists_matches (h p hp) hcompile
    obtain rfl := Option.some.inj (hr.symm.trans hr')
    exact ⟨_, ⟨p, hp, hc⟩, (hanswers name).2 hmatch⟩

/-- With any library that does as it is documented, patterns that can be put into a group are
accepted just if each is accepted alone, and then a name is scrambled just if one of them matches
the whole of it. Otherwise the first that is refused alone is reported, and the settings stay as
they were. -/
theorem obfuscation_patterns_match_whole_names (hlibrary : library.Documented table fits)
    (s : Settings) {sources : List String} (hne : sources ≠ [])
    (h : ∀ p ∈ sources, Enclosable table fits p) :
    ((∃ s', s.setObfuscation sources library = .ok s') ↔
      ∀ p ∈ sources, (library.compile? p).isSome) ∧
    (∀ problem, s.setObfuscation sources library = .error problem →
      (∃ before source after, sources = before ++ source :: after ∧
        (∀ p ∈ before, (library.compile? p).isSome) ∧ library.compile? source = none ∧
        problem = .invalidPattern source) ∧
      s.applyFile { obfuscationPatterns := sources } library = (some problem, s)) ∧
    ∀ s', s.setObfuscation sources library = .ok s' → ∀ name, s'.isObfuscated name = true ↔
      ∃ p ∈ sources, ∃ r, parse? table p = some r ∧ r.Matches name := by
  have hset : s.setObfuscation sources library =
      (compileAll sources library).map fun ps => { s with obfuscated := ps } := by
    rw [setObfuscation, if_neg (by simpa using hne)]
  rcases compileAll_cases library sources with ⟨hall, hok⟩ |
    ⟨before, source, after, rfl, hbefore, hnone, herror⟩
  · rw [hok] at hset
    refine ⟨⟨fun _ p hp => isSome_whole? hlibrary (h p hp) ▸ hall p hp, fun _ => ⟨_, hset⟩⟩, ?_, ?_⟩
    · intro problem hproblem
      rw [hset] at hproblem
      cases hproblem
    · intro s' hs'
      rw [hset] at hs'
      cases hs'
      exact isObfuscated_filterMap hlibrary s h hall
  · rw [herror] at hset
    have hmem : source ∈ before ++ source :: after := by simp
    have hrefused : library.compile? source = none := by
      rw [← Option.isSome_eq_false_iff.trans Option.isNone_iff_eq_none,
        ← isSome_whole? hlibrary (h _ hmem), hnone]
      rfl
    have happly : s.applyFile { obfuscationPatterns := before ++ source :: after } library =
        (some (.invalidPattern source), s) := by
      unfold applyFile
      simp only [Option.elim_none, hset, Except.map]
    refine ⟨⟨?_, ?_⟩, ?_, ?_⟩
    · rintro ⟨s', hs'⟩
      rw [hset] at hs'
      cases hs'
    · intro hall
      have hsome := hall source hmem
      rw [hrefused] at hsome
      cases hsome
    · intro problem hproblem
      rw [hset] at hproblem
      cases hproblem
      refine ⟨⟨before, source, after, rfl, ?_, hrefused, rfl⟩, happly⟩
      intro p hp
      rw [← isSome_whole? hlibrary (h p (List.mem_append_left _ hp))]
      exact hbefore p hp
    · intro s' hs'
      rw [hset] at hs'
      cases hs'

/-- The library that is built in, and a remark that has ended, parentheses in a remark and in
brackets, and a change of flags; then a list whose second pattern leaves a group open. -/
theorem obfuscation_patterns_match_whole_names_remark :
    Library.builtIn.Documented .carried WithinLimit ∧
    (∀ p ∈ ["(?x)a # one )\n|[^)]b", "(?i:C)+", "a(", "["], Enclosable .carried WithinLimit p) ∧
    (∃ s', default.setObfuscation ["(?x)a # one )\n|[^)]b", "(?i:C)+"] = .ok s' ∧
      ∀ name, s'.isObfuscated name = true ↔
        ∃ p ∈ ["(?x)a # one )\n|[^)]b", "(?i:C)+"],
          ∃ r, parse? .carried p = some r ∧ r.Matches name) ∧
    default.applyFile { obfuscationPatterns := ["(?i:C)+", "a(", "["] } =
      (some (.invalidPattern "a("), default) := by
  have hlibrary := Library.builtIn_documented
  have hok : ∀ p ∈ ["(?x)a # one )\n|[^)]b", "(?i:C)+"],
      Enclosable .carried WithinLimit p := by decide
  have hopen : ∀ p ∈ ["(?i:C)+", "a(", "["], Enclosable .carried WithinLimit p := by decide
  have hrefused : default.setObfuscation ["(?i:C)+", "a(", "["] =
      .error (.invalidPattern "a(") := by rfl
  refine ⟨hlibrary, by decide, ?_, ?_⟩
  · obtain ⟨haccepted, -, hnames⟩ :=
      obfuscation_patterns_match_whole_names hlibrary default (by decide) hok
    obtain ⟨s', hs'⟩ := haccepted.2 (by decide)
    exact ⟨s', hs', hnames s' hs'⟩
  · exact ((obfuscation_patterns_match_whole_names hlibrary default (by decide) hopen).2.1
      _ hrefused).2

end StableNames.Settings
