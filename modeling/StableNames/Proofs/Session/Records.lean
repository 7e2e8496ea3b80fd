-- The records of a roster. If the roster is well made they are clean. In a
-- readable graph no two of them are about the same symbol, so the store
-- that is read back from them knows each symbol that is written under its
-- name in the roster.
import StableNames.Proofs.Session.RunRoster
import StableNames.Proofs.Snapshot.Loaded

namespace StableNames

variable {g : Graph} {R : Roster} {settings : Settings} {p : ClassId → Bool} {cs : Counters}
  {c d : ClassId} {f : FieldId} {m : MethodId} {owner desc name target : String}

namespace Roster

/-! ## Which records there are -/

theorem mem_recordsOn {r : Record} :
    r ∈ R.recordsOn settings g p ↔
      ∃ c < g.classCount, p c = true ∧ r ∈ R.classRecords settings g c := by
  unfold recordsOn Graph.classIds
  simp only [List.mem_flatMap, List.mem_filter, List.mem_range, and_assoc]

theorem mem_classRecords {r : Record} :
    r ∈ R.classRecords settings g c ↔ r = .ofClass (g.className c) (R.target c) ∨
      (∃ f ∈ Session.writtenFields settings c g, r = R.fieldRecord g c f) ∨
      ∃ m ∈ Session.writtenMethods settings c g, r = R.methodRecord g c m := by
  unfold classRecords
  simp only [List.cons_append, List.mem_cons, List.mem_append, List.mem_map, eq_comm]

theorem mem_recordsOn_ofClass :
    .ofClass name target ∈ R.recordsOn settings g p ↔
      ∃ c < g.classCount, p c = true ∧ name = g.className c ∧ target = R.target c := by
  simp only [mem_recordsOn, mem_classRecords, fieldRecord, methodRecord, Record.ofClass.injEq,
    reduceCtorEq, and_false, exists_false, or_false]

theorem mem_recordsOn_ofField :
    .ofField owner desc name target ∈ R.recordsOn settings g p ↔
      ∃ c < g.classCount, p c = true ∧ ∃ f ∈ Session.writtenFields settings c g,
        owner = g.className c ∧ desc = (g.field f).desc ∧ name = (g.field f).name ∧
          target = R.fieldName g f := by
  simp only [mem_recordsOn, mem_classRecords, fieldRecord, methodRecord, Record.ofField.injEq,
    reduceCtorEq, and_false, exists_false, or_false, false_or]

theorem mem_recordsOn_ofMethod :
    .ofMethod owner desc name target ∈ R.recordsOn settings g p ↔
      ∃ c < g.classCount, p c = true ∧ ∃ m ∈ Session.writtenMethods settings c g,
        owner = g.className c ∧ desc = (g.method m).desc ∧ name = (g.method m).name ∧
          target = R.methodName g m := by
  simp only [mem_recordsOn, mem_classRecords, fieldRecord, methodRecord, Record.ofMethod.injEq,
    reduceCtorEq, and_false, exists_false, false_or]

/-- A method has a record if and only if it is written, and that is its only one. -/
theorem mem_recordsOn_method (hg : g.Coherent) (hs : g.SignaturesApart) (hm : m < g.methodCount) :
    .ofMethod (g.className (g.method m).owner) (g.method m).desc (g.method m).name target ∈
        R.recordsOn settings g p ↔
      p (g.method m).owner = true ∧ m ∈ Session.writtenMethods settings (g.method m).owner g ∧
        target = R.methodName g m := by
  rw [mem_recordsOn_ofMethod]
  constructor
  · rintro ⟨d, hd, hp, n, hn, hclass, hdesc, hname, rfl⟩
    obtain ⟨_, hlt, howner, _⟩ := (Session.mem_writtenMethods hg).1 hn
    obtain rfl := hg.className_inj (hg.owner_lt m hm) hd hclass
    obtain rfl := hs.distinct m hm n hlt howner.symm hname hdesc
    exact ⟨hp, hn, rfl⟩
  · rintro ⟨hp, hw, rfl⟩
    exact ⟨_, hg.owner_lt m hm, hp, m, hw, rfl, rfl, rfl, rfl⟩

/-- The entries of classes are in the order of their numbers. -/
theorem classPairs_recordsOn :
    (R.recordsOn settings g p).filterMap (·.classPair?) =
      (g.classIds.filter p).map fun c => (g.className c, R.target c) := by
  have hone : ∀ c, (R.classRecords settings g c).filterMap (·.classPair?) =
      [(g.className c, R.target c)] := by
    intro c
    simp [classRecords, fieldRecord, methodRecord, Record.classPair?]
  unfold recordsOn
  simp only [List.filterMap_flatMap, hone]
  rw [List.map_eq_flatMap]

theorem fieldPairs_recordsOn (hg : g.Coherent) :
    (R.recordsOn settings g p).filterMap (·.fieldPair?) =
      ((g.classIds.filter p).flatMap fun c => Session.writtenFields settings c g).map
        fun f => (g.fieldMember f, R.fieldName g f) := by
  have hone : ∀ c, (R.classRecords settings g c).filterMap (·.fieldPair?) =
      (Session.writtenFields settings c g).map fun f => (g.fieldMember f, R.fieldName g f) := by
    intro c
    simp only [classRecords, List.cons_append, List.filterMap_cons, Record.fieldPair?,
      List.filterMap_append, List.filterMap_map, Function.comp_def, fieldRecord, methodRecord,
      List.filterMap_none, List.append_nil]
    rw [← List.filterMap_eq_map]
    apply List.filterMap_congr
    intro f hf
    obtain ⟨_, _, rfl⟩ := (Session.mem_writtenFields hg).1 hf
    rfl
  unfold recordsOn
  rw [List.filterMap_flatMap, List.map_flatMap]
  simp only [hone]
/-! ## Clean records -/

namespace WellMade

theorem clean_target (h : R.WellMade settings g p) (hg : g.Coherent) (hclean : g.CleanNames)
    (hns : Unbroken settings.targetNamespace) (hc : c < g.classCount) :
    CleanName (R.target c) := by
  induction c using Nat.strongRecOn with
  | _ c ih =>
    have hgood := h.target c hc
    rcases hkeep : Session.keepsName settings (g.classInfo c) with _ | _
    · obtain ⟨place, own, hfull, hplace, howns, _, hown⟩ := hgood.renamed hkeep
      have haround : Unbroken (Session.surroundings settings g R.classes c) := by
        unfold Session.surroundings
        rcases houter : (g.classInfo c).outer? with _ | o
        · exact hns
        · have hlt := hg.outer_lt c o houter
          exact unbroken_append (ih o hlt (Nat.lt_trans hlt hc)).unbroken (by decide)
      have hplace : Unbroken place := by
        rcases hplace with rfl | rfl
        · exact haround
        · intro _ hx
          exact absurd hx (by simp)
      rw [hfull]
      exact hown.append (Session.unbroken_placeOf (hclean.clean_class c hc).unbroken hplace)
    · rw [hgood.kept hkeep]
      exact hclean.clean_class c hc

theorem clean_records (h : R.WellMade settings g p) (hg : g.Coherent) (hclean : g.CleanNames)
    (hns : Unbroken settings.targetNamespace) {r : Record}
    (hr : r ∈ R.recordsOn settings g p) : r.Clean := by
  obtain ⟨c, hc, hp, hr⟩ := mem_recordsOn.1 hr
  rcases mem_classRecords.1 hr with rfl | ⟨f, hf, rfl⟩ | ⟨m, hm, rfl⟩
  · exact ⟨hclean.clean_class c hc, h.clean_target hg hclean hns hc⟩
  · obtain ⟨_, hlt, _⟩ := (Session.mem_writtenFields hg).1 hf
    obtain ⟨hname, hdesc⟩ := hclean.clean_field f hlt
    refine ⟨hclean.clean_class c hc, hdesc, hname, ?_⟩
    unfold fieldName
    split
    · rename_i hs
      exact (h.field c hp f hf hs).2
    · exact hname
  · obtain ⟨_, hlt, _⟩ := (Session.mem_writtenMethods hg).1 hm
    obtain ⟨hname, hdesc⟩ := hclean.clean_method m hlt
    refine ⟨hclean.clean_class c hc, hdesc, hname, ?_⟩
    unfold methodName
    split
    · rename_i hs
      exact h.method c hp m hm hs
    · exact hname

/-- The target of a renamed class is read again from itself, by whatever name the class now
goes. -/
theorem rereads (h : R.WellMade settings g p) (hns : settings.PlainNamespace)
    (hpackage : settings.keepPackage = true → '$' ∉ (Session.packageOf (g.className c)).toList)
    (hc : c < g.classCount) (hkeep : Session.keepsName settings (g.classInfo c) = false)
    (name : String) :
    Session.Rereads settings name (Session.surroundings settings g R.classes c)
      (R.target c) := by
  obtain ⟨place, own, hfull, hplace, howns, hdollar, _⟩ := (h.target c hc).renamed hkeep
  rw [hfull]
  refine Session.rereads_of_marked hns hpackage ?_ hplace hdollar howns name
  unfold Session.surroundings
  rcases (g.classInfo c).outer? with _ | o
  · exact .inl rfl
  · exact .inr ⟨_, rfl⟩

end WellMade

theorem Sound.clean_records (h : R.Sound settings g) (hg : g.Coherent) (hwf : g.WellFormed)
    (hns : settings.PlainNamespace) {r : Record} (hr : r ∈ R.records settings g) : r.Clean := by
  rw [← recordsOn_all] at hr
  exact h.toWellMade.clean_records hg hwf.toCleanNames hns.unbroken hr

/-! ## What the store knows -/

theorem lookupClass_recordsOn (hg : g.Coherent) (hc : c < g.classCount) (hp : p c = true) :
    (Store.written (R.recordsOn settings g p) cs).lookupClass (g.className c) =
      some (R.target c) := by
  refine lookupClass_written (mem_recordsOn_ofClass.2 ⟨c, hc, hp, rfl, rfl⟩) ?_
  intro target' hmem
  obtain ⟨d, hd, _, hname, rfl⟩ := mem_recordsOn_ofClass.1 hmem
  rw [hg.className_inj hc hd hname]

/-- What is known of a field that is written is its name in the roster. -/
theorem eq_of_hasMember_field (hg : g.Coherent) (hread : g.Readable)
    (hf : f ∈ Session.writtenFields settings c g)
    (h : HasMember (R.recordsOn settings g p)
      ⟨g.className c, (g.field f).name, (g.field f).desc⟩ target) :
    target = R.fieldName g f := by
  obtain ⟨_, hlt, rfl⟩ := (Session.mem_writtenFields hg).1 hf
  have hc := hg.field_owner_lt f hlt
  rcases h with h | h
  · obtain ⟨d, hd, _, f', hf', hclass, hdesc, hname, rfl⟩ := mem_recordsOn_ofField.1 h
    obtain ⟨_, hlt', howner⟩ := (Session.mem_writtenFields hg).1 hf'
    have hsame : (g.field f).owner = (g.field f').owner :=
      (hg.className_inj hc hd hclass).trans howner.symm
    rw [hread.fields_distinct f hlt f' hlt' hsame hname hdesc]
  · obtain ⟨d, hd, _, m, hm, hclass, hdesc, hname, rfl⟩ := mem_recordsOn_ofMethod.1 h
    obtain ⟨_, hlt', howner, _⟩ := (Session.mem_writtenMethods hg).1 hm
    have hsame : (g.field f).owner = (g.method m).owner :=
      (hg.className_inj hc hd hclass).trans howner.symm
    exact absurd hdesc (hread.members_distinct f hlt m hlt' hsame hname)

/-- What is known of a method is its name in the roster, and the method is written. -/
theorem method_of_hasMember (hg : g.Coherent) (hread : g.Readable) (hm : m < g.methodCount)
    (h : HasMember (R.recordsOn settings g p)
      ⟨g.className (g.method m).owner, (g.method m).name, (g.method m).desc⟩ target) :
    p (g.method m).owner = true ∧
      m ∈ Session.writtenMethods settings (g.method m).owner g ∧ target = R.methodName g m := by
  rcases h with h | h
  · obtain ⟨d, hd, _, f, hf, hclass, hdesc, hname, rfl⟩ := mem_recordsOn_ofField.1 h
    obtain ⟨_, hlt, howner⟩ := (Session.mem_writtenFields hg).1 hf
    have hsame : (g.field f).owner = (g.method m).owner :=
      howner.trans (hg.className_inj (hg.owner_lt m hm) hd hclass).symm
    exact absurd hdesc.symm (hread.members_distinct f hlt m hm hsame hname.symm)
  · exact (mem_recordsOn_method hg hread.toSignaturesApart hm).1 h

theorem lookupMember_field (hg : g.Coherent) (hread : g.Readable) (hp : p c = true)
    (hf : f ∈ Session.writtenFields settings c g) :
    ∃ found, (Store.written (R.recordsOn settings g p) cs).lookupMember
      ⟨g.className c, (g.field f).name, (g.field f).desc⟩ = some found ∧
        found.name = R.fieldName g f := by
  obtain ⟨_, hlt, rfl⟩ := (Session.mem_writtenFields hg).1 hf
  have hmem : HasMember (R.recordsOn settings g p)
      ⟨g.className (g.field f).owner, (g.field f).name, (g.field f).desc⟩ (R.fieldName g f) :=
    .inl (mem_recordsOn_ofField.2
      ⟨_, hg.field_owner_lt f hlt, hp, f, hf, rfl, rfl, rfl, rfl⟩)
  obtain ⟨found, hfound⟩ := exists_lookupMember hmem
  exact ⟨found, hfound, eq_of_hasMember_field hg hread hf (hasMember_of_lookupMember hfound)⟩

theorem lookupMember_method (hg : g.Coherent) (hread : g.Readable) (hp : p c = true)
    (hm : m ∈ Session.writtenMethods settings c g) :
    ∃ found, (Store.written (R.recordsOn settings g p) cs).lookupMember
      ⟨g.className c, (g.method m).name, (g.method m).desc⟩ = some found ∧
        found.name = R.methodName g m := by
  obtain ⟨_, hlt, rfl, _⟩ := (Session.mem_writtenMethods hg).1 hm
  have hmem : HasMember (R.recordsOn settings g p)
      ⟨g.className (g.method m).owner, (g.method m).name, (g.method m).desc⟩
      (R.methodName g m) :=
    .inr ((mem_recordsOn_method hg hread.toSignaturesApart hlt).2 ⟨hp, hm, rfl⟩)
  obtain ⟨found, hfound⟩ := exists_lookupMember hmem
  exact ⟨found, hfound,
    (method_of_hasMember hg hread hlt (hasMember_of_lookupMember hfound)).2.2⟩

/-- What the store knows of a class for a method of the family is the name of a method of
the family that is written. -/
theorem exists_of_lookupMember_akin (hg : g.Coherent) (hread : g.Readable)
    (hm : m < g.methodCount) {n : MethodId} (hmn : g.Akin m n)
    (hd : d ∈ g.slot (g.method n).owner n) {found : Member}
    (hl : (Store.written (R.recordsOn settings g p) cs).lookupMember
      ⟨g.className d, (g.method n).name, (g.method n).desc⟩ = some found) :
    ∃ k, g.Akin m k ∧ p (g.method k).owner = true ∧
      k ∈ Session.writtenMethods settings (g.method k).owner g ∧
      found.name = R.methodName g k := by
  have hk := hread.keysDistinct
  have hn := hmn.lt hg hk hm
  obtain ⟨k, hslot, rfl⟩ := Graph.exists_mem_slotMethods hg hk hn hd
  obtain ⟨hlt, hkey, _⟩ := (Graph.mem_slotMethods hg hk).1 hslot
  obtain ⟨hname, hdesc⟩ := hread.eq_of_key_eq hlt hn hkey
  rw [← hname, ← hdesc] at hl
  obtain ⟨hp, hmem, htarget⟩ :=
    method_of_hasMember hg hread hlt (hasMember_of_lookupMember hl)
  exact ⟨k, hmn.tail (.inl hslot), hp, hmem, htarget⟩

/-- Methods of a family that are scrambled have one name. -/
theorem SoundOn.methodName_akin (h : R.SoundOn settings g p) (hg : g.Coherent)
    (hk : g.KeysDistinct) (hm : m < g.methodCount) {k : MethodId} (hmk : g.Akin m k)
    (hs : isScrambledMethod (g.method k).name = true) : R.methodName g k = R.method m := by
  rw [methodName, if_pos hs]
  exact h.family m hm k ((Graph.mem_family hg hk hm).2 hmk)

/-- If families are scrambled as a whole, then the store knows a class for a method of the
family only by the name of the family. -/
theorem eq_of_lookupMember_akin (h : R.SoundOn settings g p) (hg : g.Coherent)
    (hread : g.Readable) (hr : g.RelatedAlike) (hm : m < g.methodCount)
    (hs : isScrambledMethod (g.method m).name = true) {n : MethodId} (hmn : g.Akin m n)
    (hd : d ∈ g.slot (g.method n).owner n) {found : Member}
    (hl : (Store.written (R.recordsOn settings g p) cs).lookupMember
      ⟨g.className d, (g.method n).name, (g.method n).desc⟩ = some found) :
    found.name = R.method m := by
  obtain ⟨k, hmk, _, _, hname⟩ := exists_of_lookupMember_akin hg hread hm hmn hd hl
  rw [hname]
  exact h.methodName_akin hg hread.keysDistinct hm hmk
    ((hread.scrambled_of_akin hg hr hm hmk).trans hs)

end Roster

/-- A store of clean records is clean. -/
theorem Store.clean_written {rs : List Record} {cs : Counters} (h : ∀ r ∈ rs, r.Clean) :
    (Store.written rs cs).Clean := by
  constructor
  · intro _ _ _ hl
    exact (h _ (mem_of_lookupClass hl)).2
  · intro _ _ _ hl
    rcases hasMember_of_lookupMember hl with hr | hr
    · exact (h _ hr).2.2.2
    · exact (h _ hr).2.2.2

/-- The text of records and counters. -/
def textOf (rs : List Record) (cs : Counters) : String :=
  writeSnapshot officialNamespace stableNamespace (rs ++ [.verbatim cs.lines])

theorem readSnapshot_textOf {rs : List Record} {cs : Counters} (hr : ∀ r ∈ rs, r.Clean)
    (hcs : cs.Fit) (file : String) : readSnapshot file (textOf rs cs) = .ok (.written rs cs) :=
  readSnapshot_writeSnapshot (by decide) (by decide) hr hcs file

/-- The text of records and counters is read back as their snapshot. -/
theorem Session.readSnapshot_text {n : Naming} {rs : List Record} (hr : ∀ r ∈ rs, r.Clean)
    (hfit : n.allocator.counters.Fit) (file : String) :
    readSnapshot file (Session.result n rs).text = .ok (.written rs n.allocator.counters) :=
  readSnapshot_textOf hr hfit file

end StableNames
