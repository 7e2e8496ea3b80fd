-- The graph of a document hangs together: every number that stands in it
-- is in range, a member belongs to the class that lists it, the links down
-- are the links up turned round, and the related methods know each other.
-- The searches rely on this for any document, also one with cycles.
import Mathlib.Algebra.GroupWithZero.Nat
import Mathlib.Data.List.GetD
import Mathlib.Data.List.Nodup
import StableNames.Graph.Hierarchy
import StableNames.Graph.Load

namespace StableNames

theorem firstRepeated?_eq_none {before names : List String} :
    firstRepeated? before names = none ↔ names.Nodup ∧ ∀ n ∈ names, n ∉ before := by
  induction names generalizing before with
  | nil => simp [firstRepeated?]
  | cons name rest ih =>
    unfold firstRepeated?
    split
    · simp_all
    · rw [ih, List.nodup_cons]
      constructor
      · rintro ⟨hd, h⟩
        refine ⟨⟨fun hn => h name hn List.mem_cons_self, hd⟩, ?_⟩
        rintro n hn
        rcases List.mem_cons.1 hn with rfl | hn
        · assumption
        · intro hb
          exact h n hn (List.mem_cons_of_mem _ hb)
      · rintro ⟨⟨hn, hd⟩, h⟩
        refine ⟨hd, ?_⟩
        intro n hm
        rw [List.mem_cons, not_or]
        exact ⟨fun he => hn (he ▸ hm), h n (List.mem_cons_of_mem _ hm)⟩

/-- The name that is found stood before, and it is the first one that did. -/
theorem of_firstRepeated? {before names : List String} {name : String}
    (h : firstRepeated? before names = some name) :
    ∃ front rest, names = front ++ name :: rest ∧ front.Nodup ∧ (∀ n ∈ front, n ∉ before) ∧
      (name ∈ before ∨ name ∈ front) := by
  induction names generalizing before with
  | nil => cases h
  | cons first names ih =>
    unfold firstRepeated? at h
    split at h
    · next hfirst =>
      obtain rfl := Option.some.inj h
      exact ⟨[], names, rfl, List.nodup_nil, by simp, .inl hfirst⟩
    · next hfirst =>
      obtain ⟨front, rest, rfl, hd, hbefore, hname⟩ := ih h
      simp only [List.mem_cons, not_or] at hbefore hname
      refine ⟨first :: front, rest, rfl, ?_, ?_, ?_⟩
      · exact List.nodup_cons.2 ⟨fun hn => (hbefore first hn).1 rfl, hd⟩
      · exact List.forall_mem_cons.2 ⟨hfirst, fun n hn => (hbefore n hn).2⟩
      · rw [List.mem_cons]
        tauto

/-! ## Numbering -/

theorem numberClasses_map_name (outer : List (Option ClassId)) (id field method : Nat)
    (outline : List (Option ClassId × ClassDecl)) :
    (numberClasses outer id field method outline).map (·.name) = outline.map (·.2.name) := by
  induction outline generalizing id field method with
  | nil => rfl
  | cons e rest ih => simp [numberClasses, ih]

@[simp] theorem numberClasses_length (outer : List (Option ClassId)) (id field method : Nat)
    (outline : List (Option ClassId × ClassDecl)) :
    (numberClasses outer id field method outline).length = outline.length := by
  simpa using congrArg List.length (numberClasses_map_name outer id field method outline)

/-- The stretches of numbers that classes get for their members, each as long as its count. -/
def stretchesFrom (start : Nat) : List Nat → List (List Nat)
  | [] => []
  | n :: counts => List.range' start n :: stretchesFrom (start + n) counts

/-- The owners of the members of classes that are numbered from `id`. -/
def ownersFrom (id : Nat) : List Nat → List Nat
  | [] => []
  | n :: counts => List.replicate n id ++ ownersFrom (id + 1) counts

theorem le_of_mem_ownersFrom {id o : Nat} {counts : List Nat} (h : o ∈ ownersFrom id counts) :
    id ≤ o ∧ o < id + counts.length := by
  induction counts generalizing id with
  | nil => simp [ownersFrom] at h
  | cons n counts ih =>
    rw [ownersFrom, List.mem_append, List.mem_replicate] at h
    rw [List.length_cons]
    rcases h with ⟨_, rfl⟩ | h
    · omega
    · have := ih h
      omega

theorem length_ownersFrom (id : Nat) (counts : List Nat) :
    (ownersFrom id counts).length = counts.sum := by
  induction counts generalizing id with
  | nil => rfl
  | cons n counts ih => simp [ownersFrom, ih]

/-- A class has the numbers of the members that it owns. -/
theorem mem_stretchesFrom {start id i k : Nat} {counts : List Nat} {stretch : List Nat}
    (hs : (stretchesFrom start counts)[i]? = some stretch) :
    k ∈ stretch ↔ start ≤ k ∧ (ownersFrom id counts)[k - start]? = some (id + i) := by
  induction counts generalizing start id i with
  | nil => simp [stretchesFrom] at hs
  | cons n counts ih =>
    have hlater : ∀ j : Nat, (ownersFrom (id + 1) counts)[j]? ≠ some id := by
      intro j hj
      have := le_of_mem_ownersFrom (List.mem_of_getElem? hj)
      omega
    rw [ownersFrom, List.getElem?_append, List.length_replicate]
    cases i with
    | zero =>
      rw [stretchesFrom, List.getElem?_cons_zero, Option.some.injEq] at hs
      subst hs
      simp only [List.mem_range'_1, Nat.add_zero]
      split
      · rename_i hlt
        rw [List.getElem?_replicate, if_pos hlt]
        simp only [and_true]
        omega
      · simp only [hlater, and_false, iff_false]
        omega
    | succ i =>
      rw [stretchesFrom, List.getElem?_cons_succ] at hs
      rw [@ih _ (id + 1) _ hs, show id + 1 + i = id + (i + 1) by omega]
      split
      · rename_i hlt
        rw [List.getElem?_replicate, if_pos hlt, Option.some.injEq]
        omega
      · rw [show k - start - n = k - (start + n) by omega]
        constructor
        · rintro ⟨h, h'⟩
          exact ⟨by omega, h'⟩
        · rintro ⟨h, h'⟩
          exact ⟨by omega, h'⟩

/-- No number is listed twice. -/
theorem nodup_of_mem_stretchesFrom {start : Nat} {counts stretch : List Nat}
    (h : stretch ∈ stretchesFrom start counts) : stretch.Nodup := by
  induction counts generalizing start with
  | nil => simp [stretchesFrom] at h
  | cons n counts ih =>
    rw [stretchesFrom, List.mem_cons] at h
    rcases h with rfl | h
    · exact List.nodup_range'
    · exact ih h

section Numbering

variable (outer : List (Option ClassId)) (id field method : Nat)
  (outline : List (Option ClassId × ClassDecl))

theorem numberClasses_map_fields :
    (numberClasses outer id field method outline).map (·.fields) =
      stretchesFrom field (outline.map (·.2.fields.length)) := by
  induction outline generalizing id field method with
  | nil => rfl
  | cons e rest ih => simp [numberClasses, stretchesFrom, ih]

theorem numberClasses_map_methods :
    (numberClasses outer id field method outline).map (·.methods) =
      stretchesFrom method (outline.map (·.2.methods.length)) := by
  induction outline generalizing id field method with
  | nil => rfl
  | cons e rest ih => simp [numberClasses, stretchesFrom, ih]

theorem numberFields_map_owner :
    (numberFields id outline).map (·.owner) = ownersFrom id (outline.map (·.2.fields.length)) := by
  induction outline generalizing id with
  | nil => rfl
  | cons e rest ih => simp [numberFields, ownersFrom, ih, Function.comp_def, List.map_const']

theorem numberMethods_map_owner :
    (numberMethods id outline).map (·.owner) =
      ownersFrom id (outline.map (·.2.methods.length)) := by
  induction outline generalizing id with
  | nil => rfl
  | cons e rest ih => simp [numberMethods, ownersFrom, ih, Function.comp_def, List.map_const']

theorem length_numberFields :
    (numberFields id outline).length = (outline.flatMap (·.2.fields)).length := by
  rw [← List.length_map (·.owner), numberFields_map_owner, length_ownersFrom, List.length_flatMap]

theorem length_numberMethods :
    (numberMethods id outline).length = (outline.flatMap (·.2.methods)).length := by
  rw [← List.length_map (·.owner), numberMethods_map_owner, length_ownersFrom,
    List.length_flatMap]

theorem numberClasses_map_outer :
    (numberClasses outer id field method outline).map (·.outer?) = outline.map (·.1) := by
  induction outline generalizing id field method with
  | nil => rfl
  | cons e rest ih => simp [numberClasses, ih]

end Numbering

/-! ## Classes inside classes -/

mutual

theorem outer_of_mem_outline {outer? : Option ClassId} {id i : Nat} {d : ClassDecl}
    {e : Option ClassId × ClassDecl} (h : (d.outline outer? id)[i]? = some e) :
    e.1 = outer? ∨ ∃ o : Nat, e.1 = some o ∧ o < id + i := by
  obtain ⟨_, _, _, _, _, _, _, inner⟩ := d
  rw [ClassDecl.outline] at h
  cases i with
  | zero =>
    cases h
    exact .inl rfl
  | succ i =>
    rw [List.getElem?_cons_succ] at h
    rcases outer_of_mem_outlineAll h with he | ⟨o, he, ho⟩
    · exact .inr ⟨id, he, by omega⟩
    · exact .inr ⟨o, he, by omega⟩

/-- A class stands inside the given one, or inside one with a smaller number. -/
theorem outer_of_mem_outlineAll {outer? : Option ClassId} {id i : Nat} {ds : List ClassDecl}
    {e : Option ClassId × ClassDecl} (h : (outlineAll outer? id ds)[i]? = some e) :
    e.1 = outer? ∨ ∃ o : Nat, e.1 = some o ∧ o < id + i := by
  match ds with
  | [] => simp [outlineAll] at h
  | d :: rest =>
    rw [outlineAll, List.getElem?_append] at h
    split at h
    · exact outer_of_mem_outline h
    · rename_i hi
      rcases outer_of_mem_outlineAll h with he | ⟨o, he, ho⟩
      · exact .inl he
      · exact .inr ⟨o, he, by omega⟩

end

/-! ## The coherent graph -/

namespace Graph

variable {g : Graph} {a c d : ClassId} {m n : MethodId}

/-- The symbol is one of the graph. -/
def Has (g : Graph) : Symbol → Prop
  | .ofClass c => c < g.classCount
  | .ofField f => f < g.fields.size
  | .ofMethod m => m < g.methodCount

/-- What every graph of a document keeps. -/
structure Coherent (g : Graph) : Prop where
  classOf_className : ∀ c < g.classCount, g.classOf? (g.className c) = some c
  mem_fields : ∀ c f, f ∈ (g.classInfo c).fields ↔ f < g.fields.size ∧ (g.field f).owner = c
  mem_methods : ∀ c m, m ∈ (g.classInfo c).methods ↔ m < g.methodCount ∧ (g.method m).owner = c
  nodup_fields : ∀ c, (g.classInfo c).fields.Nodup
  owner_lt : ∀ m < g.methodCount, (g.method m).owner < g.classCount
  field_owner_lt : ∀ f < g.fields.size, (g.field f).owner < g.classCount
  outer_lt : ∀ c, ∀ o ∈ (g.classInfo c).outer?, o < c
  supertypes_lt : ∀ c, ∀ a ∈ g.supertypes c, a < g.classCount
  subtypes_lt : ∀ c, ∀ d ∈ g.subtypes c, d < g.classCount
  mem_subtypes : ∀ a d, d ∈ g.subtypes a ↔ a ∈ g.supertypes d
  related_lt : ∀ m, ∀ n ∈ g.relatedTo m, n < g.methodCount
  related_symm : ∀ m n, n ∈ g.relatedTo m → m ∈ g.relatedTo n

/-! ## Numbers in range, and those beyond -/

theorem mem_classIds : c ∈ g.classIds ↔ c < g.classCount := List.mem_range

theorem getElem?_classes (hc : c < g.classCount) : g.classes[c]? = some (g.classInfo c) := by
  unfold classInfo
  rw [Array.getD_eq_getD_getElem?, Array.getElem?_eq_getElem hc]
  rfl

theorem getElem?_methods (hm : m < g.methodCount) : g.methods[m]? = some (g.method m) := by
  unfold method
  rw [Array.getD_eq_getD_getElem?, Array.getElem?_eq_getElem hm]
  rfl

theorem getElem?_fields {f : FieldId} (hf : f < g.fields.size) :
    g.fields[f]? = some (g.field f) := by
  unfold field
  rw [Array.getD_eq_getD_getElem?, Array.getElem?_eq_getElem hf]
  rfl

theorem classInfo_of_le (hc : g.classCount ≤ c) : g.classInfo c = default := by
  unfold classInfo
  rw [Array.getD_eq_getD_getElem?, Array.getElem?_eq_none hc]
  rfl

theorem method_of_le (hm : g.methodCount ≤ m) : g.method m = default := by
  unfold method
  rw [Array.getD_eq_getD_getElem?, Array.getElem?_eq_none hm]
  rfl

theorem classOf?_eq_some {name : String} (h : g.classOf? name = some c) :
    c < g.classCount ∧ g.className c = name := by
  obtain ⟨hc, hname, _⟩ := Array.findIdx?_eq_some_iff_getElem.1 h
  refine ⟨hc, ?_⟩
  unfold className classInfo
  rw [Array.getD_eq_getD_getElem?, Array.getElem?_eq_getElem hc]
  simpa using hname

/-! ## Links between classes -/

/-- What each class names. -/
def named (g : Graph) : List Kin := g.classes.toList.map g.namedKin

@[simp] theorem named_length : g.named.length = g.classCount := by simp [named, classCount]

theorem getElem?_named (hc : c < g.classCount) :
    g.named[c]? = some (g.namedKin (g.classInfo c)) := by
  unfold named
  rw [List.getElem?_map, Array.getElem?_toList, getElem?_classes hc]
  rfl

@[simp] theorem getD_named (g : Graph) (c : ClassId) :
    g.named.getD c default = g.namedKin (g.classInfo c) := by
  by_cases hc : c < g.classCount
  · rw [List.getD_eq_getElem?_getD, getElem?_named hc]
    rfl
  · rw [List.getD_eq_default _ _ (by simpa using hc), classInfo_of_le (Nat.not_lt.1 hc)]
    rfl

theorem lt_of_namedKin (h : (g.namedKin (g.classInfo c)).super? = some a ∨
    a ∈ (g.namedKin (g.classInfo c)).interfaces) : a < g.classCount ∧ c < g.classCount := by
  constructor
  · simp only [namedKin, Option.bind_eq_some_iff, List.mem_filterMap] at h
    rcases h with ⟨x, _, hx⟩ | ⟨x, _, hx⟩
    · exact (classOf?_eq_some hx).1
    · exact (classOf?_eq_some hx).1
  · by_contra hc
    rw [classInfo_of_le (Nat.not_lt.1 hc)] at h
    rcases h with h | h
    · cases h
    · cases h

theorem kinOf_of_lt (hkin : g.kin = g.allKin.toArray) (hc : c < g.classCount) :
    g.kinOf c = withHeirs g.named c (g.namedKin (g.classInfo c)) := by
  unfold kinOf
  rw [hkin, Array.getD_eq_getD_getElem?, List.getElem?_toArray]
  unfold allKin
  rw [List.getElem?_mapIdx, ← named, getElem?_named hc]
  rfl

theorem kinOf_of_le (hkin : g.kin = g.allKin.toArray) (hc : g.classCount ≤ c) :
    g.kinOf c = default := by
  unfold kinOf
  rw [hkin, Array.getD_eq_getD_getElem?, List.getElem?_toArray]
  unfold allKin
  rw [List.getElem?_mapIdx, ← named, List.getElem?_eq_none (by simpa using hc)]
  rfl

theorem mem_supertypes (hkin : g.kin = g.allKin.toArray) :
    a ∈ g.supertypes c ↔ (g.namedKin (g.classInfo c)).super? = some a ∨
      a ∈ (g.namedKin (g.classInfo c)).interfaces := by
  unfold supertypes
  by_cases hc : c < g.classCount
  · rw [kinOf_of_lt hkin hc]
    simp [withHeirs, eq_comm]
  · rw [kinOf_of_le hkin (Nat.not_lt.1 hc)]
    exact iff_of_false List.not_mem_nil fun h => hc (lt_of_namedKin h).2

theorem mem_subtypes_iff (hkin : g.kin = g.allKin.toArray) :
    d ∈ g.subtypes a ↔ a ∈ g.supertypes d := by
  rw [mem_supertypes hkin]
  unfold subtypes
  by_cases ha : a < g.classCount
  · rw [kinOf_of_lt hkin ha]
    simp only [withHeirs, getD_named, named_length, List.mem_append, List.mem_filter,
      List.mem_range, List.mem_flatMap, List.mem_map, decide_eq_true_eq]
    constructor
    · rintro (⟨_, h⟩ | ⟨x, _, y, ⟨hy, rfl⟩, rfl⟩)
      · exact .inl h
      · exact .inr hy
    · intro h
      have hd := (lt_of_namedKin h).2
      rcases h with h | h
      · exact .inl ⟨hd, h⟩
      · exact .inr ⟨d, hd, a, ⟨h, rfl⟩, rfl⟩
  · rw [kinOf_of_le hkin (Nat.not_lt.1 ha)]
    exact iff_of_false List.not_mem_nil fun h => ha (lt_of_namedKin h).1

/-! ## Related methods -/

theorem mem_relatives {pairs : List (MethodId × MethodId)} :
    n ∈ relatives pairs m ↔ (m, n) ∈ pairs ∨ (n, m) ∈ pairs ∧ n ≠ m := by
  unfold relatives
  rw [List.mem_eraseDups, List.mem_filterMap]
  constructor
  · rintro ⟨⟨x, y⟩, hxy, h⟩
    simp only at h
    split at h
    · simp_all
    · split at h
      · simp_all
      · cases h
  · rintro (h | ⟨h, hne⟩)
    · exact ⟨_, h, by simp⟩
    · exact ⟨_, h, by simp [hne]⟩

theorem methodIn?_eq_some {key : String} (h : g.methodIn? c key = some m) :
    m ∈ (g.classInfo c).methods ∧ (g.method m).key = key := by
  have := List.mem_of_find?_eq_some h
  have hkey := List.find?_some h
  exact ⟨by simpa using this, by simpa using hkey⟩

/-- A method lists another one that a member it names leads to. -/
theorem mem_relations {docs : List MethodDecl} :
    (m, n) ∈ g.relations docs ↔ n ≠ m ∧ ∃ d, docs[m]? = some d ∧
      ∃ r ∈ d.related, g.methodOf? r = some n := by
  unfold relations
  simp only [List.mem_flatten, List.mem_mapIdx]
  constructor
  · rintro ⟨_, ⟨i, hi, rfl⟩, hmem⟩
    obtain ⟨other, hother, heq⟩ := List.mem_filterMap.1 hmem
    obtain ⟨r, hr, hro⟩ := List.mem_filterMap.1 hother
    split at heq
    · cases heq
    · rename_i hne
      cases heq
      exact ⟨hne, _, List.getElem?_eq_getElem hi, r, hr, hro⟩
  · rintro ⟨hne, d, hd, r, hr, hro⟩
    obtain ⟨hm, rfl⟩ := List.getElem?_eq_some_iff.1 hd
    refine ⟨_, ⟨m, hm, rfl⟩, List.mem_filterMap.2 ⟨n, ?_, if_neg hne⟩⟩
    exact List.mem_filterMap.2 ⟨r, hr, hro⟩

/-! ## Every document makes a coherent graph -/

/-- The graph is the one of an outline that has no class twice. -/
structure Built (g : Graph) (outline : List (Option ClassId × ClassDecl)) : Prop where
  names : (outline.map (·.2.name)).Nodup
  classes : g.classes = (numberClasses (outline.map (·.1)) 0 0 0 outline).toArray
  fields : g.fields = (numberFields 0 outline).toArray
  methods : g.methods = (numberMethods 0 outline).toArray
  kin : g.kin = g.allKin.toArray
  related : g.related = ((List.range g.methodCount).map
    (relatives (g.relations (outline.flatMap (·.2.methods))))).toArray

theorem built_of_ofDocument {source : String} {doc : Document}
    (h : ofDocument source doc = .ok g) : g.Built doc.outline := by
  unfold ofDocument at h
  simp only at h
  split at h
  · cases h
  · rename_i hnone
    cases h
    exact ⟨(firstRepeated?_eq_none.1 hnone).1, rfl, rfl, rfl, rfl, rfl⟩

namespace Built

variable {outline : List (Option ClassId × ClassDecl)}

theorem classCount_eq (h : g.Built outline) : g.classCount = outline.length := by
  unfold classCount
  rw [h.classes, List.size_toArray, numberClasses_length]

theorem methodCount_eq (h : g.Built outline) :
    g.methodCount = (outline.flatMap (·.2.methods)).length := by
  unfold methodCount
  rw [h.methods, List.size_toArray, length_numberMethods]

theorem getElem?_numberClasses (h : g.Built outline) (hc : c < g.classCount) :
    (numberClasses (outline.map (·.1)) 0 0 0 outline)[c]? = some (g.classInfo c) := by
  rw [← getElem?_classes hc, h.classes, List.getElem?_toArray]

/-- No name stands at two places, so the search for a name finds the place of its class. -/
theorem classOf?_className (h : g.Built outline) (hc : c < g.classCount) :
    g.classOf? (g.className c) = some c := by
  have hnames := h.names
  rw [← numberClasses_map_name (outline.map (·.1)) 0 0 0] at hnames
  have hget : ∀ j, j < g.classCount →
      ((numberClasses (outline.map (·.1)) 0 0 0 outline).map (·.name))[j]? =
        some (g.className j) := by
    intro j hj
    rw [List.getElem?_map, h.getElem?_numberClasses hj]
    rfl
  obtain ⟨d, hd⟩ : ∃ d, g.classOf? (g.className c) = some d := by
    rw [← Option.isSome_iff_exists]
    unfold classOf?
    rw [Array.findIdx?_isSome, Array.any_eq_true']
    refine ⟨g.classInfo c, Array.mem_of_getElem? (getElem?_classes hc), ?_⟩
    simp [className]
  obtain ⟨hdc, hdn⟩ := classOf?_eq_some hd
  have heq := (hget d hdc).trans ((congrArg some hdn).trans (hget c hc).symm)
  have hlt : d < ((numberClasses (outline.map (·.1)) 0 0 0 outline).map (·.name)).length := by
    simpa [← h.classCount_eq] using hdc
  rw [hd, (List.getElem?_inj hlt hnames).1 heq]

/-- A class lists the numbers that its stretch holds. -/
theorem mem_listed (h : g.Built outline) {counts : List Nat} {listed : ClassInfo → List Nat}
    {k : Nat} (hlength : counts.length = outline.length)
    (hlisted : (numberClasses (outline.map (·.1)) 0 0 0 outline).map listed =
      stretchesFrom 0 counts)
    (hnone : listed default = []) :
    k ∈ listed (g.classInfo c) ↔ (ownersFrom 0 counts)[k]? = some c := by
  by_cases hc : c < g.classCount
  · have hs : (stretchesFrom 0 counts)[c]? = some (listed (g.classInfo c)) := by
      rw [← hlisted, List.getElem?_map, h.getElem?_numberClasses hc]
      rfl
    rw [@mem_stretchesFrom _ 0 _ _ _ _ hs]
    simp
  · rw [classInfo_of_le (Nat.not_lt.1 hc), hnone]
    apply iff_of_false List.not_mem_nil
    intro ho
    apply hc
    have := (le_of_mem_ownersFrom (List.mem_of_getElem? ho)).2
    rw [h.classCount_eq, ← hlength]
    simpa using this

theorem mem_methods (h : g.Built outline) :
    m ∈ (g.classInfo c).methods ↔ m < g.methodCount ∧ (g.method m).owner = c := by
  rw [h.mem_listed (by simp) (numberClasses_map_methods _ 0 0 0 outline) rfl,
    ← numberMethods_map_owner, List.getElem?_map, ← List.getElem?_toArray, ← h.methods]
  by_cases hm : m < g.methodCount
  · rw [getElem?_methods hm, Option.map_some, Option.some.injEq, and_iff_right hm]
  · rw [Array.getElem?_eq_none (Nat.not_lt.1 hm)]
    exact iff_of_false (by simp) fun h => hm h.1

theorem mem_fields {f : FieldId} (h : g.Built outline) :
    f ∈ (g.classInfo c).fields ↔ f < g.fields.size ∧ (g.field f).owner = c := by
  rw [h.mem_listed (by simp) (numberClasses_map_fields _ 0 0 0 outline) rfl,
    ← numberFields_map_owner, List.getElem?_map, ← List.getElem?_toArray, ← h.fields]
  by_cases hf : f < g.fields.size
  · rw [getElem?_fields hf, Option.map_some, Option.some.injEq, and_iff_right hf]
  · rw [Array.getElem?_eq_none (Nat.not_lt.1 hf)]
    exact iff_of_false (by simp) fun h => hf h.1

/-- No class lists a number twice. -/
theorem nodup_listed (h : g.Built outline) {counts : List Nat} {listed : ClassInfo → List Nat}
    (hlisted : (numberClasses (outline.map (·.1)) 0 0 0 outline).map listed =
      stretchesFrom 0 counts)
    (hnone : listed default = []) (c : ClassId) : (listed (g.classInfo c)).Nodup := by
  by_cases hc : c < g.classCount
  · refine @nodup_of_mem_stretchesFrom 0 counts _ ?_
    rw [← hlisted]
    exact List.mem_map.2 ⟨_, List.mem_of_getElem? (h.getElem?_numberClasses hc), rfl⟩
  · rw [classInfo_of_le (Nat.not_lt.1 hc), hnone]
    exact List.nodup_nil

theorem nodup_fields (h : g.Built outline) (c : ClassId) : (g.classInfo c).fields.Nodup :=
  h.nodup_listed (numberClasses_map_fields _ 0 0 0 outline) rfl c

theorem nodup_methods (h : g.Built outline) (c : ClassId) : (g.classInfo c).methods.Nodup :=
  h.nodup_listed (numberClasses_map_methods _ 0 0 0 outline) rfl c

theorem owner_lt (h : g.Built outline) (hm : m < g.methodCount) :
    (g.method m).owner < g.classCount := by
  have := (h.mem_methods (c := (g.method m).owner)).2 ⟨hm, rfl⟩
  by_contra hc
  rw [classInfo_of_le (Nat.not_lt.1 hc)] at this
  cases this

theorem field_owner_lt {f : FieldId} (h : g.Built outline) (hf : f < g.fields.size) :
    (g.field f).owner < g.classCount := by
  have := (h.mem_fields (c := (g.field f).owner)).2 ⟨hf, rfl⟩
  by_contra hc
  rw [classInfo_of_le (Nat.not_lt.1 hc)] at this
  cases this

theorem getElem?_outer (h : g.Built outline) (hc : c < g.classCount) :
    (outline.map (·.1))[c]? = some (g.classInfo c).outer? := by
  rw [← numberClasses_map_outer (outline.map (·.1)) 0 0 0, List.getElem?_map,
    h.getElem?_numberClasses hc]
  rfl

theorem lt_of_mem_relations (h : g.Built outline)
    (hp : (m, n) ∈ g.relations (outline.flatMap (·.2.methods))) :
    m < g.methodCount ∧ n < g.methodCount ∧ n ≠ m := by
  obtain ⟨hne, d, hd, r, _, hr⟩ := mem_relations.1 hp
  obtain ⟨hm, _⟩ := List.getElem?_eq_some_iff.1 hd
  obtain ⟨o, _, ho⟩ := Option.bind_eq_some_iff.1 hr
  exact ⟨h.methodCount_eq ▸ hm, (h.mem_methods.1 (methodIn?_eq_some ho).1).1, hne⟩

theorem relatedTo_eq (h : g.Built outline) (m : MethodId) :
    g.relatedTo m =
      if m < g.methodCount then relatives (g.relations (outline.flatMap (·.2.methods))) m
      else [] := by
  unfold relatedTo
  rw [h.related, Array.getD_eq_getD_getElem?, List.getElem?_toArray, List.getElem?_map]
  by_cases hm : m < g.methodCount
  · rw [if_pos hm, List.getElem?_range hm]
    rfl
  · rw [if_neg hm, List.getElem?_eq_none (by simpa using hm)]
    rfl

theorem mem_relatedTo (h : g.Built outline) :
    n ∈ g.relatedTo m ↔ (m, n) ∈ g.relations (outline.flatMap (·.2.methods)) ∨
      (n, m) ∈ g.relations (outline.flatMap (·.2.methods)) := by
  rw [h.relatedTo_eq]
  split
  · rw [mem_relatives]
    constructor
    · rintro (hp | ⟨hp, _⟩)
      · exact .inl hp
      · exact .inr hp
    · rintro (hp | hp)
      · exact .inl hp
      · exact .inr ⟨hp, (h.lt_of_mem_relations hp).2.2.symm⟩
  · next hm =>
    apply iff_of_false List.not_mem_nil
    rintro (hp | hp)
    · exact hm (h.lt_of_mem_relations hp).1
    · exact hm (h.lt_of_mem_relations hp).2.1

theorem relatedTo_lt (h : g.Built outline) (hn : n ∈ g.relatedTo m) : n < g.methodCount := by
  rcases h.mem_relatedTo.1 hn with hp | hp
  · exact (h.lt_of_mem_relations hp).2.1
  · exact (h.lt_of_mem_relations hp).1

end Built

theorem coherent_of_ofDocument {source : String} {doc : Document}
    (h : ofDocument source doc = .ok g) : g.Coherent := by
  have hb := built_of_ofDocument h
  have hsuper : ∀ c, ∀ a ∈ g.supertypes c, a < g.classCount ∧ c < g.classCount := by
    intro c a ha
    exact lt_of_namedKin ((mem_supertypes hb.kin).1 ha)
  have houter : ∀ c, ∀ o ∈ (g.classInfo c).outer?, o < c := by
    intro c o ho
    rw [Option.mem_def] at ho
    by_cases hc : c < g.classCount
    · have he := hb.getElem?_outer hc
      rw [ho, List.getElem?_map, Option.map_eq_some_iff] at he
      obtain ⟨e, he, heq⟩ := he
      unfold Document.outline at he
      rcases outer_of_mem_outlineAll he with hnone | ⟨o', hsome, hlt⟩
      · rw [heq] at hnone
        cases hnone
      · rw [heq] at hsome
        cases hsome
        simpa using hlt
    · rw [classInfo_of_le (Nat.not_lt.1 hc)] at ho
      cases ho
  exact {
    classOf_className := fun c hc => hb.classOf?_className hc
    mem_fields := fun c f => hb.mem_fields
    mem_methods := fun c m => hb.mem_methods
    nodup_fields := hb.nodup_fields
    owner_lt := fun m hm => hb.owner_lt hm
    field_owner_lt := fun f hf => hb.field_owner_lt hf
    outer_lt := houter
    supertypes_lt := fun c a ha => (hsuper c a ha).1
    subtypes_lt := fun a d hd => (hsuper d a ((mem_subtypes_iff hb.kin).1 hd)).2
    mem_subtypes := fun a d => mem_subtypes_iff hb.kin
    related_symm := fun m n hn => hb.mem_relatedTo.2 (hb.mem_relatedTo.1 hn).symm
    related_lt := fun m n hn => hb.relatedTo_lt hn }

end Graph

end StableNames
