-- A run taken apart. The records of a class are a count, the records of
-- its fields and the records of its methods, one after the other; what the
-- settings leave out is an empty list.
import StableNames.Session.Generate

namespace StableNames.Session

variable {μ : Type} (settings : Settings) (l : Lineage) (policy : Policy μ) (c : ClassId)

/-- The new name of a field. -/
def newFieldName (f : FieldId) : Step Naming String :=
  if isScrambledField (l.graph.field f).name then fieldName l f else pure (l.graph.field f).name

/-- The new name of a method of `c`. -/
def newMethodName (m : MethodId) : Step (Naming × μ) String :=
  if isScrambledMethod (l.graph.method m).name then Naming.resolve l policy c m
  else pure (l.graph.method m).name

/-- The fields of a class that are written. -/
def writtenFields (g : Graph) : List FieldId :=
  if settings.mapFields then (g.classInfo c).fields else []

/-- The methods of a class that are written. -/
def writtenMethods (g : Graph) : List MethodId :=
  if settings.mapMethods then (g.classInfo c).methods.filter (isWritten g c) else []

/-- Whether a class is written. -/
def included (g : Graph) (c : ClassId) : Bool := settings.isIncluded (g.className c)

theorem fieldRecord_eq (owner : String) (f : FieldId) :
    fieldRecord l owner f = newFieldName l f >>= fun name =>
      count (fun t => { t with fields := t.fields + 1 }) >>= fun _ =>
        pure (.ofField owner (l.graph.field f).desc (l.graph.field f).name name) := by
  unfold fieldRecord newFieldName
  rcases h : isScrambledField (l.graph.field f).name with _ | _
  · simp only [h, Bool.false_eq_true, if_false]
  · simp only [h, if_true]

theorem methodRecord_eq (m : MethodId) :
    methodRecord l policy c m = newMethodName l policy c m >>= fun name =>
      (count fun t => { t with methods := t.methods + 1 }).onFirst >>= fun _ =>
        pure (.ofMethod (l.graph.className c) (l.graph.method m).desc (l.graph.method m).name
          name) := by
  unfold methodRecord newMethodName
  rcases h : isScrambledMethod (l.graph.method m).name with _ | _
  · simp only [h, Bool.false_eq_true, if_false]
  · simp only [h, if_true]

/-- Without include patterns every class is included. -/
theorem isIncluded_of_nil (h : settings.includes = []) (name : String) :
    settings.isIncluded name = true := by
  unfold Settings.isIncluded
  rw [h]
  rfl

theorem included_of_nil (h : settings.includes = []) (g : Graph) :
    included settings g = fun _ => true :=
  funext fun _ => isIncluded_of_nil settings h _

theorem classRecords_eq (target : String)
    (h : settings.isIncluded (l.graph.className c) = true) :
    classRecords settings l policy c target =
      (count fun t => { t with classes := t.classes + 1 }).onFirst >>= fun _ =>
        ((writtenFields settings c l.graph).mapM fun f =>
          (fieldRecord l (l.graph.className c) f).onFirst) >>= fun fields =>
            (writtenMethods settings c l.graph).mapM (methodRecord l policy c) >>= fun methods =>
              pure (.ofClass (l.graph.className c) target :: fields ++ methods) := by
  unfold classRecords writtenFields writtenMethods
  unfold Graph.className at h ⊢
  simp only [h, Bool.not_true, Bool.false_eq_true, if_false]
  rcases settings.mapFields with _ | _ <;> rcases settings.mapMethods with _ | _ <;>
    simp

theorem classRecords_of_not_included (target : String)
    (h : settings.isIncluded (l.graph.className c) = false) :
    classRecords settings l policy c target = pure [] := by
  unfold classRecords
  unfold Graph.className at h
  simp only [h, Bool.not_false, if_true]

theorem allRecords_eq (h : settings.includes = []) :
    allRecords settings l policy = records settings l policy [] l.graph.classIds := by
  unfold allRecords
  rw [h]
  rfl

/-- What a class is put behind depends only on the class around it. -/
theorem surroundings_congr {g : Graph} {targets targets' : List String} {c : ClassId}
    (h : ∀ o ∈ (g.classInfo c).outer?, targets.getD o "" = targets'.getD o "") :
    surroundings settings g targets c = surroundings settings g targets' c := by
  unfold surroundings
  rcases houter : (g.classInfo c).outer? with _ | o
  · rfl
  · simp only
    rw [h o houter]

theorem surroundings_of_outermost {g : Graph} {targets : List String} {c : ClassId}
    (h : (g.classInfo c).outer? = none) :
    surroundings settings g targets c = settings.targetNamespace := by
  unfold surroundings
  rw [h]

theorem surroundings_of_nested {g : Graph} {targets : List String} {c o : ClassId}
    (h : (g.classInfo c).outer? = some o) :
    surroundings settings g targets c = targets.getD o "" ++ "$" := by
  unfold surroundings
  rw [h]

/-! ## What a session gives -/

variable {policy} {s : Session} {memory memory' : μ} {n : Naming}

theorem generate_of_exec {rs : List Record}
    (h : (allRecords s.settings s.lineage policy).exec (s.naming, memory) = (.ok rs, n, memory')) :
    s.generate policy memory = (.ok (result n rs), { s with naming := n }, memory') := by
  unfold generate
  rw [h]

theorem generate_of_exec_error {problem : Problem}
    (h : (allRecords s.settings s.lineage policy).exec (s.naming, memory) =
      (.error problem, n, memory')) :
    s.generate policy memory = (.error problem, { s with naming := n }, memory') := by
  unfold generate
  rw [h]

/-- A run changes nothing of its session but what naming holds. -/
theorem generate_keeps (s : Session) (policy : Policy μ) (memory : μ) :
    (s.generate policy memory).2.1.settings = s.settings ∧
      (s.generate policy memory).2.1.lineage = s.lineage := by
  unfold generate
  rcases (allRecords s.settings s.lineage policy).exec (s.naming, memory) with
    ⟨_ | rs, n, memory'⟩ <;> exact ⟨rfl, rfl⟩

/-! ## What runs are shown on -/

/-- Every class is scrambled. -/
def allScrambled : Settings := { obfuscated := [⟨"(?s).*", fun _ => true⟩] }

/-- A class in which a scrambled method is the bridge of one that is not. -/
def bridgedClass : Document where
  classes := [{
    name := "a"
    methods := [{ name := "a", desc := "()V", related := [⟨"a", "tick", "()V"⟩] },
      { name := "tick", desc := "()V" }] }]

end StableNames.Session
