-- Methods told apart by name and descriptor. The key of a method is its
-- name with its descriptor behind it. Where no name has a parenthesis and
-- every descriptor starts with one, the key says which part is which, and
-- methods of one slot agree in both.
import StableNames.Proofs.Graph.Families

namespace StableNames.Graph

/-- A key without a parenthesis in its name and with one at the start of its descriptor can
be taken apart. -/
theorem methodKey_inj {name name' desc desc' : String} (hn : '(' ∉ name.toList)
    (hn' : '(' ∉ name'.toList) (hd : desc.toList.head? = some '(')
    (hd' : desc'.toList.head? = some '(') (h : methodKey name desc = methodKey name' desc') :
    name = name' ∧ desc = desc' := by
  have htake : ∀ name desc : String, '(' ∉ name.toList → desc.toList.head? = some '(' →
      (name ++ desc).toList.takeWhile (· != '(') = name.toList := by
    intro name desc hn hd
    obtain ⟨rest, hrest⟩ := List.head?_eq_some_iff.1 hd
    rw [String.toList_append, hrest, List.takeWhile_append_of_pos,
      List.takeWhile_cons_of_neg (by simp), List.append_nil]
    intro c hc
    rw [bne_iff_ne]
    rintro rfl
    exact hn hc
  unfold methodKey at h
  have hname : name = name' := by
    rw [← String.toList_inj, ← htake name desc hn hd, ← htake name' desc' hn' hd', h]
  subst hname
  refine ⟨rfl, ?_⟩
  have := congrArg String.toList h
  rw [String.toList_append, String.toList_append, List.append_cancel_left_eq] at this
  exact String.toList_inj.1 this

/-- No class declares two methods with the same name and descriptor, and the key of a method
says which part of it is the name. -/
@[mk_iff]
structure SignaturesApart (g : Graph) : Prop where
  distinct : ∀ m < g.methodCount, ∀ n < g.methodCount,
    (g.method m).owner = (g.method n).owner → (g.method m).name = (g.method n).name →
      (g.method m).desc = (g.method n).desc → m = n
  method_desc : ∀ m < g.methodCount, (g.method m).desc.toList.head? = some '('
  method_name : ∀ m < g.methodCount, '(' ∉ (g.method m).name.toList

instance (g : Graph) : Decidable g.SignaturesApart := decidable_of_iff' _ (signaturesApart_iff g)

/-- The method by its owner, name and descriptor. -/
def methodMember (g : Graph) (m : MethodId) : Member :=
  ⟨g.className (g.method m).owner, (g.method m).name, (g.method m).desc⟩

namespace SignaturesApart

variable {g : Graph} {m n : MethodId}

theorem eq_of_key_eq (h : g.SignaturesApart) (hm : m < g.methodCount) (hn : n < g.methodCount)
    (hkey : (g.method m).key = (g.method n).key) :
    (g.method m).name = (g.method n).name ∧ (g.method m).desc = (g.method n).desc :=
  methodKey_inj (h.method_name m hm) (h.method_name n hn) (h.method_desc m hm)
    (h.method_desc n hn) hkey

theorem keysDistinct (h : g.SignaturesApart) : g.KeysDistinct := by
  intro m hm n hn howner hkey
  obtain ⟨hname, hdesc⟩ := h.eq_of_key_eq hm hn hkey
  exact h.distinct m hm n hn howner hname hdesc

end SignaturesApart

end StableNames.Graph
