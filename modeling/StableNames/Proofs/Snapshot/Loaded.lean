-- The store of a snapshot that was written from records. It knows a symbol
-- if there is a record of it, under the names that stand in the record,
-- and the counters behind the records are those that were written.
import Mathlib.Data.List.Induction
import StableNames.Proofs.Descriptor
import StableNames.Proofs.Snapshot.RoundTrip
import StableNames.Store

namespace StableNames

/-! ## Tables of pairs -/

namespace Assoc

variable {κ ν : Type} [DecidableEq κ] {pairs : List (κ × ν)} {k : κ} {v : ν}

theorem ofList_append (pairs : List (κ × ν)) (e : κ × ν) :
    ofList (pairs ++ [e]) = (ofList pairs).insert e.1 e.2 := by
  simp [ofList]

theorem mem_of_get?_ofList (h : (ofList pairs).get? k = some v) : (k, v) ∈ pairs := by
  induction pairs using List.reverseRecOn with
  | nil => cases h
  | append_singleton pairs e ih =>
    rw [ofList_append, get?_insert] at h
    split at h
    · rename_i he
      cases h
      exact List.mem_append_right _ (by simp [← he])
    · exact List.mem_append_left _ (ih h)

theorem exists_get?_ofList (h : (k, v) ∈ pairs) : ∃ v', (ofList pairs).get? k = some v' := by
  induction pairs using List.reverseRecOn with
  | nil => cases h
  | append_singleton pairs e ih =>
    rw [ofList_append, get?_insert]
    split
    · exact ⟨_, rfl⟩
    · rename_i hne
      rcases List.mem_append.1 h with h | h
      · exact ih h
      · rw [List.mem_singleton] at h
        exact absurd (h ▸ rfl) hne

/-- A key that stands before one value only has that value. -/
theorem get?_ofList (h : (k, v) ∈ pairs) (hone : ∀ v', (k, v') ∈ pairs → v' = v) :
    (ofList pairs).get? k = some v := by
  obtain ⟨v', hv'⟩ := exists_get?_ofList h
  rw [hv', hone v' (mem_of_get?_ofList hv')]

end Assoc

/-! ## What is read back -/

/-- The snapshot that records and counters are read back as. -/
def Snapshot.written (rs : List Record) (cs : Counters) : Snapshot :=
  ⟨[officialNamespace, stableNamespace],
    rs.map Record.entry ++ cs.toList.map fun e => .counter e.1 e.2⟩

/-- The store of records. -/
def Store.written (rs : List Record) (cs : Counters) : Store :=
  .tables ((Snapshot.written rs cs).tables 0 1)

variable {rs : List Record} {cs : Counters} {owner desc name target : String} {member : Member}

theorem ofSnapshot_written (rs : List Record) (cs : Counters) :
    Store.ofSnapshot (.written rs cs) officialNamespace stableNamespace =
      .ok (Store.written rs cs) := rfl

theorem counters_written (rs : List Record) (cs : Counters) :
    (Snapshot.written rs cs).counters = cs.toList := by
  unfold Snapshot.counters Snapshot.written
  rw [List.filterMap_append, List.filterMap_eq_nil_iff.2, List.filterMap_map, List.nil_append]
  · simp
  · intro e he
    obtain ⟨r, _, rfl⟩ := List.mem_map.1 he
    cases r <;> rfl

/-- Counters are what they were once they are set from their list. -/
theorem setAll_toList (cs : Counters) : Counters.setAll {} cs.toList = cs := by
  obtain ⟨c, f, m⟩ := cs
  cases c <;> cases f <;> cases m <;> rfl

/-- Whatever is not looked for in counters is looked for in the records. -/
theorem filterMap_written {α : Type} {pick : Entry → Option α}
    (hcounter : ∀ category value, pick (.counter category value) = none) :
    (Snapshot.written rs cs).entries.filterMap pick = rs.filterMap fun r => pick r.entry := by
  have hnone : (cs.toList.map fun e => Entry.counter e.1 e.2).filterMap pick = [] := by
    rw [List.filterMap_map, List.filterMap_eq_nil_iff]
    exact fun e _ => hcounter e.1 e.2
  simp only [Snapshot.written, List.filterMap_append, hnone, List.append_nil,
    List.filterMap_map, Function.comp_def]

/-- What is looked for in the records can be read off them before they are written. -/
theorem filterMap_written_eq {α : Type} {pick : Entry → Option α} {pick' : Record → Option α}
    (hcounter : ∀ category value, pick (.counter category value) = none)
    (h : ∀ r : Record, pick r.entry = pick' r) :
    (Snapshot.written rs cs).entries.filterMap pick = rs.filterMap pick' := by
  rw [filterMap_written hcounter]
  exact List.filterMap_congr fun r _ => h r

theorem mem_filterMap_written {α : Type} {pick : Entry → Option α} {a : α}
    (hcounter : ∀ category value, pick (.counter category value) = none) :
    a ∈ (Snapshot.written rs cs).entries.filterMap pick ↔ ∃ r ∈ rs, pick r.entry = some a := by
  rw [filterMap_written hcounter, List.mem_filterMap]

theorem mem_classes_written {names : List String} :
    names ∈ (Snapshot.written rs cs).classes ↔
      ∃ name target, .ofClass name target ∈ rs ∧ names = [name, target] := by
  unfold Snapshot.classes
  rw [mem_filterMap_written fun _ _ => rfl]
  constructor
  · rintro ⟨r, hr, h⟩
    cases r <;> cases h
    exact ⟨_, _, hr, rfl⟩
  · rintro ⟨name, target, hr, rfl⟩
    exact ⟨_, hr, rfl⟩

theorem mem_fields_written {r : MemberRecord} :
    r ∈ (Snapshot.written rs cs).fields ↔ ∃ owner desc name target,
      .ofField owner desc name target ∈ rs ∧ r = ⟨owner, desc, [name, target]⟩ := by
  unfold Snapshot.fields
  rw [mem_filterMap_written fun _ _ => rfl]
  constructor
  · rintro ⟨r, hr, h⟩
    cases r <;> cases h
    exact ⟨_, _, _, _, hr, rfl⟩
  · rintro ⟨owner, desc, name, target, hr, rfl⟩
    exact ⟨_, hr, rfl⟩

theorem mem_methods_written {r : MemberRecord} :
    r ∈ (Snapshot.written rs cs).methods ↔ ∃ owner desc name target,
      .ofMethod owner desc name target ∈ rs ∧ r = ⟨owner, desc, [name, target]⟩ := by
  unfold Snapshot.methods
  rw [mem_filterMap_written fun _ _ => rfl]
  constructor
  · rintro ⟨r, hr, h⟩
    cases r <;> cases h
    exact ⟨_, _, _, _, hr, rfl⟩
  · rintro ⟨owner, desc, name, target, hr, rfl⟩
    exact ⟨_, hr, rfl⟩

/-- The class and the new name of a record of a class. -/
def Record.classPair? : Record → Option (String × String)
  | .ofClass source target => some (source, target)
  | _ => none

/-- The field and the new name of a record of a field. -/
def Record.fieldPair? : Record → Option (Member × String)
  | .ofField owner desc source target => some (⟨owner, source, desc⟩, target)
  | _ => none

theorem classes_written :
    (Snapshot.written rs cs).classes =
      (rs.filterMap (·.classPair?)).map fun e => [e.1, e.2] := by
  rw [List.map_filterMap]
  exact filterMap_written_eq (fun _ _ => rfl) fun r => by cases r <;> rfl

theorem fields_written :
    (Snapshot.written rs cs).fields =
      (rs.filterMap (·.fieldPair?)).map fun e => ⟨e.1.owner, e.1.desc, [e.1.name, e.2]⟩ := by
  rw [List.map_filterMap]
  exact filterMap_written_eq (fun _ _ => rfl) fun r => by cases r <;> rfl

/-! ## Lookups -/

/-- There is a record of the member with this new name. -/
def HasMember (rs : List Record) (member : Member) (target : String) : Prop :=
  .ofField member.owner member.desc member.name target ∈ rs ∨
    .ofMethod member.owner member.desc member.name target ∈ rs

/-- A class that has one new name in the records is known under it. -/
theorem lookupClass_written (h : .ofClass name target ∈ rs)
    (hone : ∀ target', .ofClass name target' ∈ rs → target' = target) :
    (Store.written rs cs).lookupClass name = some target := by
  apply Assoc.get?_ofList
  · exact List.mem_map.2 ⟨_, mem_classes_written.2 ⟨name, target, h, rfl⟩, rfl⟩
  · intro target' hmem
    obtain ⟨names, hnames, heq⟩ := List.mem_map.1 hmem
    obtain ⟨name', target'', hr, rfl⟩ := mem_classes_written.1 hnames
    cases heq
    exact hone _ hr

/-- What is known of a class stands in a record of it. -/
theorem mem_of_lookupClass (h : (Store.written rs cs).lookupClass name = some target) :
    .ofClass name target ∈ rs := by
  obtain ⟨names, hnames, heq⟩ := List.mem_map.1 (Assoc.mem_of_get?_ofList h)
  obtain ⟨name', target', hr, rfl⟩ := mem_classes_written.1 hnames
  cases heq
  exact hr

/-- A record goes by the names that stand in it in the namespace that it is written in. -/
theorem memberIn_source (r : MemberRecord) :
    r.memberIn ((Snapshot.written rs cs).classesTo 0) 0 = ⟨r.owner, r.names.getD 0 "", r.desc⟩ := by
  have hself : ∀ name target,
      ((Snapshot.written rs cs).classesTo 0).get? name = some target → target = name := by
    intro name target h
    obtain ⟨names, _, heq⟩ := List.mem_map.1 (Assoc.mem_of_get?_ofList h)
    cases heq
    rfl
  unfold MemberRecord.memberIn
  rw [Descriptor.remap_eq_self hself]
  rcases howner : ((Snapshot.written rs cs).classesTo 0).get? r.owner with _ | target
  · rfl
  · rw [Option.getD_some, hself _ _ howner]

theorem mem_members_written {found : Member} :
    (member, found) ∈ ((Snapshot.written rs cs).fields ++ (Snapshot.written rs cs).methods).map
      (fun r => (r.memberIn ((Snapshot.written rs cs).classesTo 0) 0,
        r.memberIn ((Snapshot.written rs cs).classesTo 1) 1)) →
    HasMember rs member found.name := by
  intro h
  obtain ⟨r, hr, heq⟩ := List.mem_map.1 h
  rw [memberIn_source] at heq
  cases heq
  rcases List.mem_append.1 hr with hr | hr
  · obtain ⟨owner, desc, name, target, hmem, rfl⟩ := mem_fields_written.1 hr
    exact .inl hmem
  · obtain ⟨owner, desc, name, target, hmem, rfl⟩ := mem_methods_written.1 hr
    exact .inr hmem

/-- What is known of a member stands in a record of it. -/
theorem hasMember_of_lookupMember {found : Member}
    (h : (Store.written rs cs).lookupMember member = some found) :
    HasMember rs member found.name :=
  mem_members_written (Assoc.mem_of_get?_ofList h)

/-- Each member with a record is known. -/
theorem exists_lookupMember (h : HasMember rs member target) :
    ∃ found, (Store.written rs cs).lookupMember member = some found := by
  have hknown : ∀ r ∈ (Snapshot.written rs cs).fields ++ (Snapshot.written rs cs).methods,
      r.owner = member.owner → r.names.getD 0 "" = member.name → r.desc = member.desc →
        ∃ found, (Store.written rs cs).lookupMember member = some found := by
    intro r hr ho hn hd
    apply Assoc.exists_get?_ofList
    apply List.mem_map.2
    refine ⟨r, hr, Prod.ext ?_ rfl⟩
    rw [memberIn_source, ho, hn, hd]
  rcases h with h | h
  · exact hknown _ (List.mem_append_left _ (mem_fields_written.2 ⟨_, _, _, _, h, rfl⟩)) rfl rfl rfl
  · exact hknown _ (List.mem_append_right _ (mem_methods_written.2 ⟨_, _, _, _, h, rfl⟩))
      rfl rfl rfl

end StableNames
