-- The candidates of a family depend only on which hits there are, not on
-- how often or in which order they are found. So a search that finds more
-- hits of the same kind gives the same candidates. The hits of a class are
-- the names that a method of it had before: in the store for the same
-- version, or else at its match, or else in the slot of the match.
import StableNames.Naming.Candidates
import StableNames.Proofs.Graph.Families

namespace StableNames

theorem nodup_eraseDups {α : Type} [BEq α] [LawfulBEq α] (l : List α) : l.eraseDups.Nodup := by
  induction h : l.length using Nat.strongRecOn generalizing l with
  | _ n ih =>
    cases l with
    | nil => simp
    | cons a l =>
      rw [List.eraseDups_cons, List.nodup_cons]
      refine ⟨by simp [List.mem_eraseDups], ih _ ?_ _ rfl⟩
      have := List.length_filter_le (fun b => !b == a) l
      simp only [List.length_cons] at h
      omega

/-- Lists of the same names have the same sorted set. -/
theorem sortedSet_congr {xs ys : List String} (h : ∀ s, s ∈ xs ↔ s ∈ ys) :
    sortedSet xs = sortedSet ys := by
  have htrans : ∀ a b c : String, decide (a ≤ b) = true → decide (b ≤ c) = true →
      decide (a ≤ c) = true := by
    simp only [decide_eq_true_eq]
    intro _ _ _
    exact String.le_trans
  have htotal : ∀ a b : String, (decide (a ≤ b) || decide (b ≤ a)) = true := by
    simpa using String.le_total
  have hperm : xs.eraseDups.Perm ys.eraseDups := by
    rw [List.perm_ext_iff_of_nodup (nodup_eraseDups xs) (nodup_eraseDups ys)]
    simpa [List.mem_eraseDups] using h
  refine List.Perm.eq_of_pairwise ?_ (List.pairwise_mergeSort htrans htotal _)
    (List.pairwise_mergeSort htrans htotal _) ?_
  · intro a b _ _ hab hba
    exact String.le_antisymm (by simpa using hab) (by simpa using hba)
  · exact (List.mergeSort_perm _ _).trans (hperm.trans (List.mergeSort_perm _ _).symm)

theorem mem_sortedSet {xs : List String} {s : String} : s ∈ sortedSet xs ↔ s ∈ xs := by
  unfold sortedSet
  rw [List.mem_mergeSort, List.mem_eraseDups]

theorem Candidate.ofHits_congr {hits hits' : List Hit} (h : ∀ hit, hit ∈ hits ↔ hit ∈ hits') :
    Candidate.ofHits hits = Candidate.ofHits hits' := by
  have hnames : sortedSet (hits.map (·.name)) = sortedSet (hits'.map (·.name)) :=
    sortedSet_congr (by simp [h])
  have horigins : ∀ name, sortedSet ((hits.filter (·.name = name)).map (·.origin)) =
      sortedSet ((hits'.filter (·.name = name)).map (·.origin)) :=
    fun name => sortedSet_congr (by simp [h])
  unfold Candidate.ofHits
  rw [hnames]
  exact List.map_congr_left fun name _ => by rw [horigins]

/-- Hits of one name make one candidate. -/
theorem Candidate.ofHits_of_same_name {hits : List Hit} {name : String} (hne : hits ≠ [])
    (h : ∀ hit ∈ hits, hit.name = name) : ∃ origins, Candidate.ofHits hits = [⟨name, origins⟩] := by
  have hnames : sortedSet (hits.map (·.name)) = sortedSet [name] := by
    apply sortedSet_congr
    intro s
    obtain ⟨hit, hmem⟩ := List.exists_mem_of_ne_nil _ hne
    simp only [List.mem_map, List.mem_singleton]
    constructor
    · rintro ⟨x, hx, rfl⟩
      exact h x hx
    · rintro rfl
      exact ⟨hit, hmem, h hit hmem⟩
  refine ⟨sortedSet ((hits.filter (·.name = name)).map (·.origin)), ?_⟩
  unfold Candidate.ofHits
  rw [hnames, show sortedSet [name] = [name] by simp [sortedSet, List.eraseDups_cons],
    List.map_singleton]

/-- A name that a method had before, by the first place that knows one. -/
inductive Lineage.EarlierName (l : Lineage) (member : Member) : String → Prop
  | current {found : Member} (h : l.chain.currentMember member = some found) :
      EarlierName l member found.name
  | matched {earlier : Earlier} {old found : Member}
      (hnone : l.chain.currentMember member = none)
      (hearlier : l.chain.earlier? = some earlier)
      (hold : earlier.toOld.lookupMember member = some old)
      (h : earlier.names.lookupMember old = some found) : EarlierName l member found.name
  | slot {earlier : Earlier} {old found : Member} {g : Graph} {c d : ClassId} {m : MethodId}
      (hnone : l.chain.currentMember member = none)
      (hearlier : l.chain.earlier? = some earlier)
      (hold : earlier.toOld.lookupMember member = some old)
      (hnone' : earlier.names.lookupMember old = none)
      (hgraph : l.old? = some g) (hclass : g.classOf? old.owner = some c)
      (hmethod : g.methodIn? c (methodKey old.name old.desc) = some m) (hslot : d ∈ g.slot c m)
      (h : earlier.names.lookupMember ⟨g.className d, old.name, old.desc⟩ = some found) :
      EarlierName l member found.name

namespace Lineage

variable {g g' : Graph} {store toOld names : Store} {l : Lineage} {c d : ClassId}
  {m n : MethodId} {hit : Hit} {old : Member} {name desc suffix earlierName : String}

/-- The old hierarchy gives what the store knows of the slot of the old method. -/
theorem mem_oldHits : hit ∈ l.oldHits names old suffix ↔ ∃ g c m, l.old? = some g ∧
    g.classOf? old.owner = some c ∧ g.methodIn? c (methodKey old.name old.desc) = some m ∧
    ∃ d ∈ g.slot c m, ∃ found, names.lookupMember ⟨g.className d, old.name, old.desc⟩ = some found ∧
      hit = ⟨found.name, g.origin d ++ suffix⟩ := by
  unfold oldHits
  constructor
  · intro h
    split at h
    · cases h
    · rename_i g hgraph
      split at h
      · cases h
      · rename_i c hclass
        split at h
        · cases h
        · rename_i m hmethod
          obtain ⟨d, hd, hlook⟩ := List.mem_filterMap.1 h
          obtain ⟨found, hfound, rfl⟩ := Option.map_eq_some_iff.1 hlook
          exact ⟨g, c, m, hgraph, hclass, hmethod, d, hd, found, hfound, rfl⟩
  · rintro ⟨g, c, m, hgraph, hclass, hmethod, d, hd, found, hfound, rfl⟩
    simp only [hgraph, hclass, hmethod]
    exact List.mem_filterMap.2 ⟨d, hd, by rw [hfound, Option.map_some]⟩

/-- The hits of a class are the earlier names that a method of it would have. -/
theorem exists_mem_classHits_iff :
    (∃ hit ∈ l.classHits name desc suffix c, hit.name = earlierName) ↔
      l.EarlierName ⟨l.graph.className c, name, desc⟩ earlierName := by
  unfold classHits
  constructor
  · rintro ⟨hit, h, rfl⟩
    rcases hcurrent : l.chain.currentMember ⟨l.graph.className c, name, desc⟩ with _ | found
    · rcases hearlier : l.chain.earlier? with _ | earlier
      · simp [hcurrent, hearlier] at h
      · rcases hold : earlier.toOld.lookupMember ⟨l.graph.className c, name, desc⟩ with _ | old
        · simp [hcurrent, hearlier, hold] at h
        · rcases hlook : earlier.names.lookupMember old with _ | found
          · simp only [hcurrent, hearlier, hold, hlook] at h
            obtain ⟨g, c, m, hgraph, hclass, hmethod, d, hd, found, hfound, rfl⟩ := mem_oldHits.1 h
            exact .slot hcurrent hearlier hold hlook hgraph hclass hmethod hd hfound
          · simp only [hcurrent, hearlier, hold, hlook, List.mem_singleton] at h
            subst h
            exact .matched hcurrent hearlier hold hlook
    · simp only [hcurrent, List.mem_singleton] at h
      subst h
      exact .current hcurrent
  · intro h
    cases h with
    | current h => simp only [h, List.mem_singleton, exists_eq_left]
    | matched hnone hearlier hold h =>
      simp only [hnone, hearlier, hold, h, List.mem_singleton, exists_eq_left]
    | slot hnone hearlier hold hnone' hgraph hclass hmethod hslot h =>
      simp only [hnone, hearlier, hold, hnone']
      exact ⟨_, mem_oldHits.2 ⟨_, _, _, hgraph, hclass, hmethod, _, hslot, _, h, rfl⟩, rfl⟩

theorem mem_slotHits : hit ∈ l.slotHits c m ↔ ∃ d ∈ l.graph.slot c m,
    hit ∈ l.classHits (l.graph.method m).name (l.graph.method m).desc
      (suffixOf (l.graph.method m)) d := by
  unfold slotHits
  simp only [List.mem_flatMap]

theorem mem_hits : hit ∈ l.hits c m ↔ ∃ e ∈ l.graph.visits c m, hit ∈ l.slotHits e.1 e.2 := by
  unfold hits
  simp only [List.mem_flatMap]

/-- When a method is visited and has a hit, and all hits have one name, then that name is
the only candidate. -/
theorem candidates_of_same_name (hv : (d, n) ∈ l.graph.visits c m) (hown : hit ∈ l.slotHits d n)
    (h : ∀ hit ∈ l.hits c m, hit.name = name) :
    ∃ origins, l.candidates c m = [⟨name, origins⟩] := by
  apply Candidate.ofHits_of_same_name ?_ h
  apply List.ne_nil_of_mem
  exact mem_hits.2 ⟨_, hv, hown⟩

/-! ## Names by way of an earlier version -/

/-- The second graph with the first one as its earlier version. -/
def updating (g g' : Graph) (toOld names : Store) : Lineage where
  graph := g'
  old? := some g
  chain.earlier? := some { toOld, names }

@[simp] theorem graph_updating : (updating g g' toOld names).graph = g' := rfl

theorem lookupClass_updating {old : String} (h : toOld.lookupClass name = some old) :
    (updating g g' toOld names).chain.lookupClass name = names.lookupClass old := by
  simp [Chain.lookupClass, updating, h]

theorem lookupMember_updating {member old : Member}
    (h : toOld.lookupMember member = some old) :
    (updating g g' toOld names).chain.lookupMember member = names.lookupMember old := by
  simp [Chain.lookupMember, Chain.currentMember, updating, h]

/-- A class gives the name of its match, or else what the slot of the match has. -/
theorem classHits_updating {old : Member}
    (h : toOld.lookupMember ⟨g'.className c, name, desc⟩ = some old) :
    hit ∈ (updating g g' toOld names).classHits name desc suffix c ↔
      (∃ found, names.lookupMember old = some found ∧
        hit = ⟨found.name, g'.origin c ++ suffix⟩) ∨
      names.lookupMember old = none ∧
        hit ∈ (updating g g' toOld names).oldHits names old suffix := by
  unfold classHits Chain.currentMember
  simp only [updating, Option.bind_none, h]
  rcases names.lookupMember old with _ | found
  · simp
  · simp

/-- What the old slot of a method gives is a name that one of its classes has. -/
theorem exists_of_mem_oldHits (hg : g.Coherent) (hk : g.KeysDistinct) (hm : m < g.methodCount)
    (hkey : (g.method m).key = methodKey name desc)
    (h : hit ∈ (updating g g' toOld names).oldHits names
      ⟨g.className (g.method m).owner, name, desc⟩ suffix) :
    ∃ e ∈ g.slot (g.method m).owner m, ∃ found,
      names.lookupMember ⟨g.className e, name, desc⟩ = some found ∧
        hit = ⟨found.name, g.origin e ++ suffix⟩ := by
  have hclass := hg.classOf_className (g.method m).owner (hg.owner_lt m hm)
  have hmethod := Graph.methodIn?_key hg hk hm
  rw [hkey] at hmethod
  obtain ⟨g₀, c, own, hgraph, hclass', hmethod', hfound⟩ := mem_oldHits.1 h
  obtain rfl : g = g₀ := Option.some.inj hgraph
  obtain rfl := Option.some.inj (hclass.symm.trans hclass')
  obtain rfl := Option.some.inj (hmethod.symm.trans hmethod')
  exact hfound

/-! ## Names of the same version by two ways -/

/-- The store is asked for the symbols as they are. -/
def regenerating (g : Graph) (store : Store) : Lineage where
  graph := g
  chain.current? := some store

/-- The graph is its own earlier version, in which each symbol is its own match. -/
def rederiving (g : Graph) (store : Store) : Lineage where
  graph := g
  old? := some g
  chain.earlier? := some { toOld := .identity, names := store }

theorem rederiving_eq (g : Graph) (store : Store) :
    rederiving g store = updating g g .identity store := rfl

theorem lookupClass_regenerating (name : String) :
    (regenerating g store).chain.lookupClass name = store.lookupClass name := by
  simp [Chain.lookupClass, regenerating]

theorem lookupMember_regenerating (member : Member) :
    (regenerating g store).chain.lookupMember member = store.lookupMember member := by
  simp [Chain.lookupMember, Chain.currentMember, regenerating]

theorem classHits_regenerating :
    hit ∈ (regenerating g store).classHits name desc suffix c ↔
      ∃ found, store.lookupMember ⟨g.className c, name, desc⟩ = some found ∧
        hit = ⟨found.name, g.origin c ++ suffix⟩ := by
  unfold classHits regenerating Chain.currentMember
  simp only [Option.bind_some]
  rcases store.lookupMember ⟨g.className c, name, desc⟩ with _ | found
  · simp
  · simp

/-- The old hierarchy is the same, so what it finds for a class without a name of its own is
what stands at the other classes of the slot. -/
theorem exists_mem_slot_of_mem_oldHits (hg : g.Coherent) (hk : g.KeysDistinct)
    (hm : m < g.methodCount) (hd : d ∈ g.slot (g.method m).owner m)
    (h : hit ∈ (updating g g toOld names).oldHits names
      ⟨g.className d, (g.method m).name, (g.method m).desc⟩ suffix) :
    ∃ e ∈ g.slot (g.method m).owner m, ∃ found,
      names.lookupMember ⟨g.className e, (g.method m).name, (g.method m).desc⟩ = some found ∧
        hit = ⟨found.name, g.origin e ++ suffix⟩ := by
  obtain ⟨own, hown, rfl⟩ := Graph.exists_mem_slotMethods hg hk hm hd
  obtain ⟨hlt, hkey, _⟩ := (Graph.mem_slotMethods hg hk).1 hown
  obtain ⟨e, he, hfound⟩ := exists_of_mem_oldHits hg hk hlt hkey h
  exact ⟨e, (Graph.mem_slot_congr hg hk hm hown).1 he, hfound⟩

/-- Both ways lead to the same candidates. -/
theorem candidates_rederiving (hg : g.Coherent) (hk : g.KeysDistinct) (hm : m < g.methodCount) :
    (rederiving g store).candidates (g.method m).owner m =
      (regenerating g store).candidates (g.method m).owner m := by
  rw [rederiving_eq]
  apply Candidate.ofHits_congr
  intro hit
  rw [mem_hits, mem_hits]
  apply exists_congr
  rintro ⟨o, n⟩
  apply and_congr_right
  intro hv
  obtain ⟨rfl, hn, _⟩ := Graph.akin_of_mem_visits hg hm hv
  have hself : ∀ member : Member, Store.identity.lookupMember member = some member :=
    fun _ => rfl
  rw [mem_slotHits, mem_slotHits]
  simp only [classHits_regenerating, classHits_updating (hself _)]
  constructor
  · rintro ⟨d, hd, h | ⟨_, h⟩⟩
    · exact ⟨d, hd, h⟩
    · exact exists_mem_slot_of_mem_oldHits hg hk hn hd h
  · rintro ⟨d, hd, h⟩
    exact ⟨d, hd, .inl h⟩

end Lineage

end StableNames
