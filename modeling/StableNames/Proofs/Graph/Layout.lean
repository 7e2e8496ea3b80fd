-- How a document is laid out in its graph. A class gets its number before
-- the classes inside it, and these before what stands next to it, so the
-- numbers of a class and of all inside it make one stretch. What a class
-- lists as inside it are the numbers that its inner classes got.
import StableNames.Proofs.Graph.Joined

namespace StableNames

/-! ## The classes of a document -/

mutual

/-- A class and all classes inside it, each before those inside it. -/
def ClassDecl.preorder : ClassDecl → List ClassDecl
  | d@⟨_, _, _, _, _, _, _, inner⟩ => d :: preorderAll inner

/-- Classes that stand side by side, and all that is inside them. -/
def preorderAll : List ClassDecl → List ClassDecl
  | [] => []
  | d :: rest => d.preorder ++ preorderAll rest

end

/-- All classes of a document, at whatever depth. -/
def Document.preorder (doc : Document) : List ClassDecl := preorderAll doc.classes

/-- The numbers of classes that stand side by side, if the first one gets `id`. -/
def startsFrom (id : ClassId) : List ClassDecl → List ClassId
  | [] => []
  | d :: rest => id :: startsFrom (id + d.preorder.length) rest

mutual

theorem map_outline (outer? : Option ClassId) (id : ClassId) (d : ClassDecl) :
    (d.outline outer? id).map (·.2) = d.preorder := by
  obtain ⟨_, _, _, _, _, _, _, inner⟩ := d
  rw [ClassDecl.outline, ClassDecl.preorder, List.map_cons, map_outlineAll]

theorem map_outlineAll (outer? : Option ClassId) (id : ClassId) (ds : List ClassDecl) :
    (outlineAll outer? id ds).map (·.2) = preorderAll ds := by
  match ds with
  | [] => rfl
  | d :: rest =>
    rw [outlineAll, preorderAll, List.map_append, map_outline, map_outlineAll _ _ rest]

end

theorem length_outline (outer? : Option ClassId) (id : ClassId) (d : ClassDecl) :
    (d.outline outer? id).length = d.preorder.length := by
  rw [← map_outline outer? id, List.length_map]

theorem length_outlineAll (outer? : Option ClassId) (id : ClassId) (ds : List ClassDecl) :
    (outlineAll outer? id ds).length = (preorderAll ds).length := by
  rw [← map_outlineAll outer? id, List.length_map]

theorem length_preorder (d : ClassDecl) : d.preorder.length = (preorderAll d.inner).length + 1 := by
  obtain ⟨_, _, _, _, _, _, _, inner⟩ := d
  rfl

mutual

theorem findIdxs_outline {p : Option ClassId → Bool} (outer? : Option ClassId) (id : Nat)
    (d : ClassDecl)
    (hp : ∀ o : Nat, id ≤ o → o < id + d.preorder.length → p (some o) = false) :
    ((d.outline outer? id).map (·.1)).findIdxs p id = if p outer? then [id] else [] := by
  obtain ⟨_, _, _, _, _, _, _, inner⟩ := d
  rw [ClassDecl.preorder, List.length_cons] at hp
  rw [ClassDecl.outline, List.map_cons, List.findIdxs_cons,
    findIdxs_outlineAll (some id) (id + 1) inner fun o ho ho' => hp o (by omega) (by omega),
    hp id (Nat.le_refl id) (by omega)]
  rfl

/-- Of the classes of an outline, those inside a class that is not of the outline itself are
the ones that stand side by side. -/
theorem findIdxs_outlineAll {p : Option ClassId → Bool} (outer? : Option ClassId) (id : Nat)
    (ds : List ClassDecl)
    (hp : ∀ o : Nat, id ≤ o → o < id + (preorderAll ds).length → p (some o) = false) :
    ((outlineAll outer? id ds).map (·.1)).findIdxs p id =
      if p outer? then startsFrom id ds else [] := by
  match ds with
  | [] => simp [outlineAll, startsFrom]
  | d :: rest =>
    rw [preorderAll, List.length_append] at hp
    rw [outlineAll, List.map_append, List.findIdxs_append, List.length_map, length_outline,
      findIdxs_outline outer? id d fun o ho ho' => hp o ho (by omega),
      findIdxs_outlineAll outer? _ rest fun o ho ho' => hp o (by omega) (by omega)]
    cases p outer? <;> rfl

end

namespace Graph

variable {g : Graph} {c : ClassId}

/-! ## What a class of the graph carries -/

/-- The class with the number `c` says what the declaration says, and so do its members. -/
structure Carries (g : Graph) (c : ClassId) (d : ClassDecl) : Prop where
  name : (g.classInfo c).name = d.name
  access : (g.classInfo c).access = d.access
  superName? : (g.classInfo c).superName? = d.superName?
  interfaceNames : (g.classInfo c).interfaceNames = d.interfaceNames
  anonymous? : (g.classInfo c).anonymous? = d.anonymous?
  fields : (g.classInfo c).fields.map g.field = d.fields.map fun f => ⟨c, f.name, f.desc⟩
  methods : (g.classInfo c).methods.map g.method =
    d.methods.map fun m => ⟨c, m.name, m.desc, m.access⟩

/-- The classes `cs` carry the declarations `ds`, and what they list as inside them carries
what is declared inside these. In all they are the classes `numbers`, each before those
inside it. -/
inductive Laid (g : Graph) : (ds : List ClassDecl) → (cs numbers : List ClassId) → Prop
  | nil : Laid g [] [] []
  | cons {d : ClassDecl} {c : ClassId} {rest : List ClassDecl} {cs inside after : List ClassId}
      (hcarries : g.Carries c d) (hinside : Laid g d.inner (g.classInfo c).inner inside)
      (hrest : Laid g rest cs after) : Laid g (d :: rest) (c :: cs) (c :: inside ++ after)

/-- The classes from `id` on carry these declarations, in order. -/
def CarriesFrom (g : Graph) (id : Nat) : List ClassDecl → Prop
  | [] => True
  | d :: ds => g.Carries id d ∧ g.CarriesFrom (id + 1) ds

theorem carriesFrom_append {id : Nat} {ds ds' : List ClassDecl} :
    g.CarriesFrom id (ds ++ ds') ↔ g.CarriesFrom id ds ∧ g.CarriesFrom (id + ds.length) ds' := by
  induction ds generalizing id with
  | nil => simp [CarriesFrom]
  | cons d ds ih =>
    rw [List.cons_append, CarriesFrom, CarriesFrom, ih, and_assoc, List.length_cons,
      Nat.add_assoc, Nat.add_comm 1]

/-- The classes from `id` on list those of them as inside that stand inside, where the list
tells of each what it stands inside of. -/
def ListsFrom (g : Graph) (id : Nat) (outer : List (Option ClassId)) : Prop :=
  ∀ i < outer.length, (g.classInfo (id + i)).inner = outer.findIdxs (· = some (id + i)) id

section Split

variable {outer? : Option ClassId} {id : Nat}

/-- Nothing inside a class stands next to it. -/
theorem ListsFrom.of_cons {inner : List ClassDecl} (houter : ∀ o : Nat, outer? = some o → o < id)
    (h : g.ListsFrom id (outer? :: (outlineAll (some id) (id + 1) inner).map (·.1))) :
    (g.classInfo id).inner = startsFrom (id + 1) inner ∧
      g.ListsFrom (id + 1) ((outlineAll (some id) (id + 1) inner).map (·.1)) := by
  have hne : ∀ i : Nat, outer? ≠ some (id + i) := by
    intro i hi
    have := houter _ hi
    omega
  constructor
  · have hself := h 0 (Nat.succ_pos _)
    rw [List.findIdxs_cons, if_neg (by simpa using hne 0), findIdxs_outlineAll] at hself
    · simpa using hself
    · intro o ho _
      have : o ≠ id + 0 := by omega
      simpa using this
  · intro i hi
    rw [Nat.add_right_comm, Nat.add_assoc, h (i + 1) (Nat.succ_lt_succ hi), List.findIdxs_cons,
      if_neg (by simpa using hne (i + 1))]

/-- What stands next to a class has nothing inside that class, and the other way round. -/
theorem ListsFrom.of_append {d : ClassDecl} {rest : List ClassDecl}
    (houter : ∀ o : Nat, outer? = some o → o < id)
    (h : g.ListsFrom id ((d.outline outer? id).map (·.1) ++
      (outlineAll outer? (id + d.preorder.length) rest).map (·.1))) :
    g.ListsFrom id ((d.outline outer? id).map (·.1)) ∧
      g.ListsFrom (id + d.preorder.length)
        ((outlineAll outer? (id + d.preorder.length) rest).map (·.1)) := by
  have hne : ∀ i : Nat, outer? ≠ some (id + i) := by
    intro i hi
    have := houter _ hi
    omega
  unfold ListsFrom at h ⊢
  simp only [List.length_append, List.findIdxs_append, List.length_map, length_outline,
    length_outlineAll] at h ⊢
  constructor
  · intro i hi
    rw [h i (by omega), findIdxs_outlineAll, if_neg (by simpa using hne i), List.append_nil]
    intro o ho _
    have : o ≠ id + i := by omega
    simpa using this
  · intro i hi
    rw [Nat.add_assoc, h _ (by omega), findIdxs_outline, if_neg (by simpa using hne _),
      List.nil_append]
    intro o _ ho
    have : o ≠ id + (d.preorder.length + i) := by omega
    simpa using this

end Split

mutual

theorem laid_outline (outer? : Option ClassId) (id : Nat) (d : ClassDecl)
    (houter : ∀ o : Nat, outer? = some o → o < id) (hcarries : g.CarriesFrom id d.preorder)
    (hlists : g.ListsFrom id ((d.outline outer? id).map (·.1))) :
    g.Carries id d ∧ g.Laid d.inner (g.classInfo id).inner
      (List.range' (id + 1) (preorderAll d.inner).length) := by
  obtain ⟨_, _, _, _, _, _, _, inner⟩ := d
  rw [ClassDecl.preorder, CarriesFrom] at hcarries
  rw [ClassDecl.outline, List.map_cons] at hlists
  obtain ⟨hfirst, hrest⟩ := ListsFrom.of_cons houter hlists
  refine ⟨hcarries.1, ?_⟩
  rw [hfirst]
  refine laid_outlineAll (some id) (id + 1) inner ?_ hcarries.2 hrest
  intro o ho
  have : id = o := Option.some.inj ho
  omega

theorem laid_outlineAll (outer? : Option ClassId) (id : Nat) (ds : List ClassDecl)
    (houter : ∀ o : Nat, outer? = some o → o < id) (hcarries : g.CarriesFrom id (preorderAll ds))
    (hlists : g.ListsFrom id ((outlineAll outer? id ds).map (·.1))) :
    g.Laid ds (startsFrom id ds) (List.range' id (preorderAll ds).length) := by
  match ds with
  | [] => exact .nil
  | d :: rest =>
    rw [preorderAll, carriesFrom_append] at hcarries
    rw [outlineAll, List.map_append, length_outline] at hlists
    obtain ⟨hown, hothers⟩ := ListsFrom.of_append houter hlists
    obtain ⟨hfirst, hinside⟩ := laid_outline outer? id d houter hcarries.1 hown
    have hrest := laid_outlineAll outer? _ rest
      (fun o ho => Nat.lt_of_lt_of_le (houter o ho) (Nat.le_add_right _ _)) hcarries.2 hothers
    have hnumbers : List.range' id (preorderAll (d :: rest)).length =
        id :: List.range' (id + 1) (preorderAll d.inner).length ++
          List.range' (id + d.preorder.length) (preorderAll rest).length := by
      rw [preorderAll, List.length_append, ← List.range'_append_1, length_preorder,
        List.range'_succ]
    rw [hnumbers, startsFrom]
    exact .cons hfirst hinside hrest

end

/-! ## The graph of a document -/

namespace Built

variable {outline pre post : List (Option ClassId × ClassDecl)}
  {e : Option ClassId × ClassDecl}

theorem getD_middle {α : Type} {xs ys zs : List α} {default : α} {i n : Nat} (hn : xs.length = n)
    (hi : i < ys.length) : (xs ++ (ys ++ zs)).toArray.getD (n + i) default = ys[i] := by
  subst hn
  rw [Array.getD_eq_getD_getElem?, List.getElem?_toArray, ← List.append_assoc,
    getElem?_middle hi, List.getElem?_eq_getElem hi]
  rfl

/-- The members of a class stand at the numbers that it lists. -/
theorem map_range'_getD {α : Type} {xs ys zs : List α} {default : α} {n : Nat}
    (hn : xs.length = n) :
    (List.range' n ys.length).map (fun i => (xs ++ (ys ++ zs)).toArray.getD i default) = ys := by
  apply List.ext_getElem
  · simp
  · intro i hi hi'
    rw [List.getElem_map, List.getElem_range', Nat.one_mul, getD_middle hn hi']

theorem classInfo_eq (h : g.Built outline) (houtline : outline = pre ++ e :: post) :
    g.classInfo pre.length =
      { name := e.2.name
        access := e.2.access
        superName? := e.2.superName?
        interfaceNames := e.2.interfaceNames
        anonymous? := e.2.anonymous?
        outer? := e.1
        inner := (List.range (outline.map (·.1)).length).filter fun c =>
          (outline.map (·.1))[c]? = some (some pre.length)
        fields := List.range' (Offset.behind pre).fields e.2.fields.length
        methods := List.range' (Offset.behind pre).methods e.2.methods.length } := by
  have hlength : (numberClasses (outline.map (·.1)) 0 0 0 pre).length = pre.length :=
    numberClasses_length ..
  unfold classInfo
  rw [h.classes]
  generalize outline.map (·.1) = outer at hlength ⊢
  rw [houtline, numberClasses_append, numberClasses, Array.getD_eq_getD_getElem?,
    List.getElem?_toArray, List.getElem?_append_right (Nat.le_of_eq hlength), hlength,
    Nat.sub_self]
  simp [Offset.behind]

theorem carries (h : g.Built outline) (houtline : outline = pre ++ e :: post) :
    g.Carries pre.length e.2 := by
  have hinfo := h.classInfo_eq houtline
  constructor <;> rw [hinfo]
  case fields =>
    have hfield : g.field =
        fun f => (numberFields 0 (pre ++ e :: post)).toArray.getD f default := by
      funext f
      unfold field
      rw [h.fields, houtline]
    have hmembers := @map_range'_getD _ (numberFields 0 pre)
      (e.2.fields.map fun f => ⟨pre.length, f.name, f.desc⟩)
      (numberFields (pre.length + 1) post) default _ (length_numberFields 0 pre)
    rw [List.length_map] at hmembers
    rw [hfield, numberFields_append, numberFields, Nat.zero_add]
    exact hmembers
  case methods =>
    have hmethod : g.method =
        fun m => (numberMethods 0 (pre ++ e :: post)).toArray.getD m default := by
      funext m
      unfold method
      rw [h.methods, houtline]
    have hmembers := @map_range'_getD _ (numberMethods 0 pre)
      (e.2.methods.map fun m => ⟨pre.length, m.name, m.desc, m.access⟩)
      (numberMethods (pre.length + 1) post) default _ (length_numberMethods 0 pre)
    rw [List.length_map] at hmembers
    rw [hmethod, numberMethods_append, numberMethods, Nat.zero_add]
    exact hmembers

theorem carriesFrom (h : g.Built outline) (houtline : outline = pre ++ post) :
    g.CarriesFrom pre.length (post.map (·.2)) := by
  induction post generalizing pre with
  | nil => trivial
  | cons e post ih =>
    have hrest := @ih (pre ++ [e]) (by rw [houtline, List.append_assoc]; rfl)
    rw [List.length_append] at hrest
    exact ⟨h.carries houtline, hrest⟩

/-- What is filtered out of a range are the places of the items that are looked for. -/
theorem filter_range_eq_findIdxs {α : Type} (p : α → Bool) (xs : List α) :
    (List.range xs.length).filter (fun i => (xs[i]?).any p) = xs.findIdxs p := by
  induction xs with
  | nil => rfl
  | cons x xs ih =>
    rw [List.length_cons, List.range_succ_eq_map, List.filter_cons, List.filter_map,
      List.findIdxs_cons, List.findIdxs_start, ← ih]
    rfl

theorem exists_split (h : g.Built outline) (hc : c < g.classCount) :
    ∃ pre e post, outline = pre ++ e :: post ∧ pre.length = c := by
  rw [h.classCount_eq] at hc
  refine ⟨outline.take c, outline[c], outline.drop (c + 1), ?_,
    List.length_take_of_le (Nat.le_of_lt hc)⟩
  rw [← List.drop_eq_getElem_cons hc, List.take_append_drop]

theorem inner_eq (h : g.Built outline) (hc : c < g.classCount) :
    (g.classInfo c).inner = (outline.map (·.1)).findIdxs (· = some c) := by
  obtain ⟨pre, e, post, houtline, rfl⟩ := h.exists_split hc
  rw [h.classInfo_eq houtline, ← filter_range_eq_findIdxs]
  apply List.filter_congr
  intro i _
  cases (outline.map (·.1))[i]? <;> simp

theorem roots_eq (h : g.Built outline) :
    g.roots = (outline.map (·.1)).findIdxs (·.isNone) := by
  unfold roots classIds
  rw [← filter_range_eq_findIdxs, List.length_map, ← h.classCount_eq]
  apply List.filter_congr
  intro c hc
  rw [h.getElem?_outer (List.mem_range.1 hc)]
  rfl

end Built

/-- Every document is laid out in its graph: the classes have the numbers from 0 on, each
before those inside it. -/
theorem laid_of_ofDocument {source : String} {doc : Document}
    (h : ofDocument source doc = .ok g) :
    g.Laid doc.classes g.roots (List.range g.classCount) := by
  have hb := built_of_ofDocument h
  have hcarries : g.CarriesFrom 0 (preorderAll doc.classes) := by
    rw [← map_outlineAll none 0]
    exact hb.carriesFrom (List.nil_append _).symm
  have hlists : g.ListsFrom 0 ((outlineAll none 0 doc.classes).map (·.1)) := by
    intro i hi
    rw [Nat.zero_add]
    exact hb.inner_eq (by rwa [hb.classCount_eq, ← List.length_map])
  have hlaid := laid_outlineAll none 0 doc.classes (by simp) hcarries hlists
  have hroots : g.roots = startsFrom 0 doc.classes := by
    rw [hb.roots_eq]
    exact findIdxs_outlineAll none 0 doc.classes fun _ _ _ => rfl
  rw [hroots, hb.classCount_eq, List.range_eq_range']
  unfold Document.outline
  rwa [length_outlineAll]

end Graph

end StableNames
