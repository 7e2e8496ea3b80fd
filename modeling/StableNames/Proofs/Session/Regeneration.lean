-- A run with the store of its own records. Each symbol that is written is
-- known under its name in the roster, so classes and fields keep theirs.
-- The candidates of a method are the names of all methods of its family
-- that are written. If they agree the family keeps its name, and if not it
-- is a conflict.
import StableNames.Proofs.Session.FirstRun
import StableNames.Proofs.Session.Records

namespace StableNames

/-- Two hits of different names make more than one candidate. -/
theorem Candidate.two_le_length_ofHits {hits : List Hit} {hit hit' : Hit} (h : hit ∈ hits)
    (h' : hit' ∈ hits) (hne : hit.name ≠ hit'.name) : 2 ≤ (Candidate.ofHits hits).length := by
  have hmem : ∀ x ∈ hits, x.name ∈ sortedSet (hits.map (·.name)) :=
    fun x hx => mem_sortedSet.2 (List.mem_map.2 ⟨x, hx, rfl⟩)
  have h₁ := hmem hit h
  have h₂ := hmem hit' h'
  unfold Candidate.ofHits
  rw [List.length_map]
  rcases hnames : sortedSet (hits.map (·.name)) with _ | ⟨x, _ | ⟨y, rest⟩⟩
  · rw [hnames] at h₁
    cases h₁
  · rw [hnames, List.mem_singleton] at h₁ h₂
    exact absurd (h₁.trans h₂.symm) hne
  · rw [hnames]
    simp

variable {g : Graph} {R : Roster} {settings : Settings} {p : ClassId → Bool} {cs : Counters}
  {c d : ClassId} {f : FieldId} {m : MethodId} {name : String}

/-! ## Candidates -/

namespace Roster

/-- The method stands in the records of the classes that `p` picks. -/
def Writes (settings : Settings) (g : Graph) (p : ClassId → Bool) (m : MethodId) : Prop :=
  p (g.method m).owner = true ∧ m ∈ Session.writtenMethods settings (g.method m).owner g

/-- All methods of the family that stand in the records have the name of the family. -/
def Undisputed (R : Roster) (settings : Settings) (g : Graph) (p : ClassId → Bool)
    (m : MethodId) : Prop :=
  ∀ k, g.Akin m k → Writes settings g p k → R.methodName g k = R.method m

/-- What a family has in the store are the names of its methods that are written. -/
theorem mem_hits_regenerating (hg : g.Coherent) (hread : g.Readable) (hm : m < g.methodCount) :
    (∃ hit ∈ (Lineage.regenerating g (.written (R.recordsOn settings g p) cs)).hits
        (g.method m).owner m, hit.name = name) ↔
      ∃ k, g.Akin m k ∧ Writes settings g p k ∧ name = R.methodName g k := by
  have hk := hread.keysDistinct
  constructor
  · rintro ⟨hit, hhit, rfl⟩
    obtain ⟨⟨d, n⟩, hv, hslot⟩ := Lineage.mem_hits.1 hhit
    obtain ⟨rfl, _, hmn⟩ := Graph.akin_of_mem_visits hg hm hv
    obtain ⟨e, he, hclass⟩ := Lineage.mem_slotHits.1 hslot
    obtain ⟨found, hl, rfl⟩ := Lineage.classHits_regenerating.1 hclass
    obtain ⟨k, hmk, hp, hkw, hname⟩ := exists_of_lookupMember_akin hg hread hm hmn he hl
    exact ⟨k, hmk, ⟨hp, hkw⟩, hname⟩
  · rintro ⟨k, hmk, ⟨hp, hkw⟩, rfl⟩
    -- the method is found in a slot that the search looks at, under the key of that slot
    obtain ⟨⟨d, n⟩, hv, hmem⟩ := List.mem_flatMap.1
      ((Graph.mem_family_iff _).1 ((Graph.mem_family hg hk hm).2 hmk))
    obtain ⟨rfl, hn, _⟩ := Graph.akin_of_mem_visits hg hm hv
    have hslot : k ∈ g.slotMethods (g.method n).owner n := by
      rcases List.mem_cons.1 hmem with rfl | hslot
      · exact Graph.self_mem_slotMethods hg hk hn
      · exact hslot
    obtain ⟨hlt, hkey, howner⟩ := (Graph.mem_slotMethods hg hk).1 hslot
    obtain ⟨hname, hdesc⟩ := hread.eq_of_key_eq hlt hn hkey
    obtain ⟨found, hfound, hfoundname⟩ :=
      @lookupMember_method g R settings p cs _ k hg hread hp hkw
    rw [hname, hdesc] at hfound
    refine ⟨⟨found.name, g.origin (g.method k).owner ++ Lineage.suffixOf (g.method n)⟩, ?_,
      hfoundname⟩
    exact Lineage.mem_hits.2 ⟨_, hv, Lineage.mem_slotHits.2 ⟨_, howner,
      Lineage.classHits_regenerating.2 ⟨found, hfound, rfl⟩⟩⟩

theorem candidates_of_undisputed (hg : g.Coherent) (hread : g.Readable)
    (hm : m < g.methodCount) (hw : Writes settings g p m) (h : R.Undisputed settings g p m) :
    ∃ origins, (Lineage.regenerating g (.written (R.recordsOn settings g p) cs)).candidates
      (g.method m).owner m = [⟨R.method m, origins⟩] := by
  obtain ⟨hit, hhit, _⟩ := (@mem_hits_regenerating g R settings p cs m _ hg hread hm).2
    ⟨m, .refl, hw, rfl⟩
  apply Candidate.ofHits_of_same_name (List.ne_nil_of_mem hhit)
  intro hit hhit
  obtain ⟨k, hmk, hkw, hname⟩ := (mem_hits_regenerating hg hread hm).1 ⟨hit, hhit, rfl⟩
  exact hname.trans (h k hmk hkw)

theorem candidates_of_disputed (hg : g.Coherent) (hread : g.Readable)
    (hm : m < g.methodCount) (hw : Writes settings g p m)
    (hs : isScrambledMethod (g.method m).name = true) (h : ¬ R.Undisputed settings g p m) :
    2 ≤ ((Lineage.regenerating g (.written (R.recordsOn settings g p) cs)).candidates
      (g.method m).owner m).length := by
  unfold Undisputed at h
  push Not at h
  obtain ⟨k, hmk, hkw, hne⟩ := h
  obtain ⟨hit, hhit, hname⟩ := (@mem_hits_regenerating g R settings p cs m _ hg hread hm).2
    ⟨k, hmk, hkw, rfl⟩
  obtain ⟨hit', hhit', hname'⟩ := (@mem_hits_regenerating g R settings p cs m _ hg hread hm).2
    ⟨m, .refl, hw, rfl⟩
  refine Candidate.two_le_length_ofHits hhit hhit' ?_
  rw [hname, hname']
  rwa [show R.methodName g m = R.method m by rw [methodName, if_pos hs]]

/-- Whether there is a dispute is the same for all methods of a family. -/
theorem Undisputed.akin (h : R.Undisputed settings g p m) (hg : g.Coherent)
    (hread : g.Readable) (hfamily : ∀ m < g.methodCount,
      ∀ k ∈ g.family (g.method m).owner m, R.method k = R.method m)
    (hm : m < g.methodCount) {n : MethodId} (hmn : g.Akin m n) :
    R.Undisputed settings g p n := by
  intro k hnk hkw
  rw [hfamily m hm n ((Graph.mem_family hg hread.keysDistinct hm).2 hmn)]
  exact h k (hmn.trans hnk) hkw

/-- Families that are scrambled as a whole have no disputes. -/
theorem SoundOn.undisputed (h : R.SoundOn settings g p) (hg : g.Coherent)
    (hread : g.Readable) (hr : g.RelatedAlike) (hm : m < g.methodCount)
    (hs : isScrambledMethod (g.method m).name = true) : R.Undisputed settings g p m := by
  intro k hmk _
  exact h.methodName_akin hg hread.keysDistinct hm hmk
    ((hread.scrambled_of_akin hg hr hm hmk).trans hs)

/-! ## Classes and fields -/

theorem knownField_regenerating (h : R.SoundOn settings g p) (hg : g.Coherent)
    (hread : g.Readable) (hp : p c = true) (hf : f ∈ Session.writtenFields settings c g)
    (hs : isScrambledField (g.field f).name = true) :
    ∃ earlier, (Lineage.regenerating g (.written (R.recordsOn settings g p) cs)).chain.lookupMember
        ⟨g.className (g.field f).owner, (g.field f).name, (g.field f).desc⟩ = some earlier ∧
      Category.ofField.owns earlier.name = true ∧ earlier.name = R.field f := by
  obtain ⟨found, hfound, hname⟩ := @lookupMember_field g R settings p cs c f hg hread hp hf
  obtain ⟨_, _, rfl⟩ := (Session.mem_writtenFields hg).1 hf
  rw [fieldName, if_pos hs] at hname
  refine ⟨found, ?_, ?_, hname⟩
  · rw [Lineage.lookupMember_regenerating]
    exact hfound
  · rw [hname]
    exact (h.field _ hp f hf hs).1

/-- When no family has a dispute, the store of all records knows every symbol under its name
in the roster. -/
theorem known_of_undisputed (h : R.Sound settings g) (hg : g.Coherent) (hread : g.Readable)
    (hns : settings.PlainNamespace) (hpackage : ∀ c < g.classCount, settings.keepPackage = true →
      '$' ∉ (Session.packageOf (g.className c)).toList)
    (hmethods : ∀ c m, m ∈ Session.writtenMethods settings c g →
      isScrambledMethod (g.method m).name = true → R.Undisputed settings g (fun _ => true) m) :
    R.Known settings (Lineage.regenerating g (.written (R.records settings g) cs)) := by
  rw [← recordsOn_all]
  refine ⟨h.length_classes, ?kept, ?adopted, ?field, ?method, h.family⟩
  case kept => exact fun c hc hkeep => (h.target c hc).kept hkeep
  case adopted =>
    intro c hc hkeep
    have hreads := h.rereads hns (hpackage c hc) hc hkeep (g.className c)
    refine ⟨R.target c, ?_, hreads.owns, hreads.full_eq⟩
    rw [Lineage.lookupClass_regenerating]
    exact lookupClass_recordsOn hg hc rfl
  case field =>
    intro f hf hs howner hmap
    exact knownField_regenerating h hg hread rfl ((Session.mem_writtenFields hg).2
      ⟨hmap, hf, rfl⟩) hs
  case method =>
    intro c m hm hs
    have hu := hmethods c m hm hs
    obtain ⟨_, hlt, rfl, _⟩ := (Session.mem_writtenMethods hg).1 hm
    exact ⟨h.owns_method _ rfl m hm hs, candidates_of_undisputed hg hread hlt ⟨rfl, hm⟩ hu⟩

end Roster

end StableNames
