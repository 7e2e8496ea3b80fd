-- The records of a renamed graph. Where the settings treat every symbol as
-- they did before, the same symbols are written, and a roster gives the
-- same new names to them.
import StableNames.Proofs.Graph.Versions
import StableNames.Proofs.Session.Roster

namespace StableNames

variable {ren : Renaming} {doc : Document} {settings : Settings} {g g' : Graph} {R : Roster}
  {c : ClassId} {f : FieldId} {m : MethodId}

namespace Graph

namespace Versions

variable (h : Versions ren doc g g')

include h

theorem className_rename (hc : c < g.classCount) :
    g'.className c = ren.ofClass (g.className c) := h.renamed.className_eq hc

theorem fieldMember_rename (hf : f < g.fields.size) :
    g'.fieldMember f = ren.fieldMember (g.fieldMember f) := by
  unfold fieldMember
  rw [h.renamed.field_eq hf]
  simp only [Renaming.fieldInfo, Renaming.fieldMember]
  rw [h.className_rename (h.coherent.field_owner_lt f hf)]

theorem methodMember_rename (hm : m < g.methodCount) :
    g'.methodMember m = ren.methodMember (g.methodMember m) := by
  unfold methodMember
  rw [h.renamed.method_eq hm]
  simp only [Renaming.methodInfo, Renaming.methodMember]
  rw [h.className_rename (h.coherent.owner_lt m hm)]

end Versions

end Graph

/-- Classes that keep their names are not renamed, and none begins or ceases to keep its
name. Members that are not scrambled are not renamed, and the others stay scrambled. -/
@[mk_iff]
structure Renaming.Respects (ren : Renaming) (settings : Settings) (g : Graph) : Prop where
  keepsName : ∀ c < g.classCount, Session.keepsName settings (ren.classInfo (g.classInfo c)) =
    Session.keepsName settings (g.classInfo c)
  kept : ∀ c < g.classCount, Session.keepsName settings (g.classInfo c) = true →
    ren.ofClass (g.className c) = g.className c
  field_scrambled : ∀ f < g.fields.size,
    isScrambledField (ren.ofField (g.fieldMember f)) = isScrambledField (g.field f).name
  field_plain : ∀ f < g.fields.size, isScrambledField (g.field f).name = false →
    ren.ofField (g.fieldMember f) = (g.field f).name
  method_scrambled : ∀ m < g.methodCount,
    isScrambledMethod (ren.ofMethod (g.method m).name (g.method m).desc) =
      isScrambledMethod (g.method m).name
  method_plain : ∀ m < g.methodCount, isScrambledMethod (g.method m).name = false →
    ren.ofMethod (g.method m).name (g.method m).desc = (g.method m).name

set_option synthInstance.maxSize 400 in
instance (ren : Renaming) (settings : Settings) (g : Graph) : Decidable (ren.Respects settings g) :=
  decidable_of_iff' _ (Renaming.respects_iff ren settings g)

/-- The record under the new names of its symbol. -/
def Renaming.record (ren : Renaming) : Record → Record
  | .ofClass name target => .ofClass (ren.ofClass name) target
  | .ofField owner desc name target =>
    .ofField (ren.ofClass owner) (ren.desc desc) (ren.ofField ⟨owner, name, desc⟩) target
  | .ofMethod owner desc name target =>
    .ofMethod (ren.ofClass owner) (ren.desc desc) (ren.ofMethod name desc) target
  | .verbatim text => .verbatim text

/-! ## What is written -/

namespace Renaming.Respects

variable (hr : ren.Respects settings g) (h : Graph.Versions ren doc g g')

include hr h

theorem keepsName_rename (hc : c < g.classCount) :
    Session.keepsName settings (g'.classInfo c) = Session.keepsName settings (g.classInfo c) := by
  rw [h.renamed.classInfo_eq hc, hr.keepsName c hc]

theorem scrambledField_rename (hf : f < g.fields.size) :
    isScrambledField (g'.field f).name = isScrambledField (g.field f).name := by
  rw [h.renamed.field_eq hf]
  exact hr.field_scrambled f hf

theorem scrambledMethod_rename (hm : m < g.methodCount) :
    isScrambledMethod (g'.method m).name = isScrambledMethod (g.method m).name := by
  rw [h.renamed.method_eq hm]
  exact hr.method_scrambled m hm

/-- A scrambled method is no initializer, and the others have the names that they had. -/
theorem isInitializer_rename (hm : m < g.methodCount) :
    (g'.method m).isInitializer = (g.method m).isInitializer := by
  have hscrambled := hr.scrambledMethod_rename h hm
  rcases hs : isScrambledMethod (g.method m).name with _ | _
  · rw [h.renamed.method_eq hm]
    exact congrArg isInitializer (hr.method_plain m hm hs)
  · have hnone : ∀ name, isScrambledMethod name = true → isInitializer name = false := by
      intro name hname
      unfold isScrambledMethod at hname
      simpa using (Bool.and_eq_true_iff.1 hname).2
    rw [hs] at hscrambled
    exact (hnone _ hscrambled).trans (hnone _ hs).symm

theorem isWritten_rename (hm : m < g.methodCount) :
    Session.isWritten g' c m = Session.isWritten g c m := by
  unfold Session.isWritten
  rw [hr.isInitializer_rename h hm, h.alike.isSource_eq hm]

theorem writtenMethods_rename (hc : c < g.classCount) :
    Session.writtenMethods settings c g' = Session.writtenMethods settings c g := by
  have hmethods : (g'.classInfo c).methods.filter (Session.isWritten g' c) =
      (g.classInfo c).methods.filter (Session.isWritten g c) := by
    rw [h.renamed.classInfo_eq hc]
    apply List.filter_congr
    intro m hm
    exact hr.isWritten_rename h ((h.coherent.mem_methods c m).1 hm).1
  unfold Session.writtenMethods
  rw [hmethods]

omit hr in
theorem writtenFields_rename (hc : c < g.classCount) :
    Session.writtenFields settings c g' = Session.writtenFields settings c g := by
  unfold Session.writtenFields
  rw [h.renamed.classInfo_eq hc]
  rfl

/-! ## Records -/

theorem fieldRecord_rename (hf : f < g.fields.size) (ho : (g.field f).owner = c) :
    R.fieldRecord g' c f = ren.record (R.fieldRecord g c f) := by
  have hc : c < g.classCount := ho ▸ h.coherent.field_owner_lt f hf
  have hname : R.fieldName g' f = R.fieldName g f := by
    unfold Roster.fieldName
    rw [hr.scrambledField_rename h hf]
    rcases hs : isScrambledField (g.field f).name with _ | _
    · rw [h.renamed.field_eq hf]
      exact hr.field_plain f hf hs
    · rfl
  subst ho
  unfold Roster.fieldRecord
  rw [hname, h.className_rename hc, h.renamed.field_eq hf]
  rfl

theorem methodRecord_rename (hm : m < g.methodCount) (hc : c < g.classCount) :
    R.methodRecord g' c m = ren.record (R.methodRecord g c m) := by
  have hname : R.methodName g' m = R.methodName g m := by
    unfold Roster.methodName
    rw [hr.scrambledMethod_rename h hm]
    rcases hs : isScrambledMethod (g.method m).name with _ | _
    · rw [h.renamed.method_eq hm]
      exact hr.method_plain m hm hs
    · rfl
  unfold Roster.methodRecord
  rw [hname, h.className_rename hc, h.renamed.method_eq hm]
  rfl

/-- The records of the renamed graph are those of the graph under new names. -/
theorem records_rename :
    R.records settings g' = (R.records settings g).map ren.record := by
  unfold Roster.records Graph.classIds
  rw [h.renamed.classCount_eq, List.map_flatMap]
  apply List.flatMap_congr
  intro c hc
  rw [List.mem_range] at hc
  have hfields : (Session.writtenFields settings c g).map (R.fieldRecord g' c) =
      ((Session.writtenFields settings c g).map (R.fieldRecord g c)).map ren.record := by
    rw [List.map_map]
    apply List.map_congr_left
    intro f hf
    obtain ⟨_, hlt, howner⟩ := (Session.mem_writtenFields h.coherent).1 hf
    exact hr.fieldRecord_rename h hlt howner
  have hmethods : (Session.writtenMethods settings c g).map (R.methodRecord g' c) =
      ((Session.writtenMethods settings c g).map (R.methodRecord g c)).map ren.record := by
    rw [List.map_map]
    apply List.map_congr_left
    intro m hm
    obtain ⟨_, hlt, _⟩ := (Session.mem_writtenMethods h.coherent).1 hm
    exact hr.methodRecord_rename h hlt hc
  unfold Roster.classRecords
  rw [writtenFields_rename h hc, hr.writtenMethods_rename h hc, h.className_rename hc, hfields,
    hmethods, List.map_append, List.map_cons]
  rfl

end Renaming.Respects

end StableNames
