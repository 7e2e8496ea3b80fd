-- Descriptors with their classes renamed. A class ends at a semicolon, so
-- as long as no new name holds one, the pieces of the result are the
-- pieces of the descriptor, each renamed on its own. Nothing is lost then
-- if different classes get different names.
import Mathlib.Data.List.TakeWhile
import StableNames.Descriptor

namespace StableNames.Descriptor

variable {f : String → Option String} {c : Char} {name rest text : List Char}

/-! ## Pieces -/

theorem flatMap_text_pieces (text : List Char) : (pieces text).flatMap Piece.text = text := by
  fun_induction pieces text with
  | case1 => rfl
  | case2 rest hnone =>
    simp [List.flatMap_map, Piece.text]
  | case3 rest c more hsome ih =>
    have hsplit := List.takeWhile_append_dropWhile (p := (· != ';')) (l := rest)
    have hc : c = ';' := by
      have hne : rest.dropWhile (· != ';') ≠ [] := by simp [hsome]
      have hhead := List.head_dropWhile_not (· != ';') hne
      simpa [hsome] using hhead
    subst hc
    rw [hsome] at hsplit
    rw [List.flatMap_cons, ih]
    simpa [Piece.text] using hsplit
  | case4 c rest hc ih => simp [Piece.text, ih]

theorem pieces_nil : pieces [] = [] := by rw [pieces]

theorem pieces_plain (h : c ≠ 'L') (rest : List Char) :
    pieces (c :: rest) = .plain c :: pieces rest := by
  rw [pieces, if_neg h]

/-- A class ends at the first semicolon. -/
theorem pieces_ref (h : ';' ∉ name) (rest : List Char) :
    pieces ('L' :: (name ++ ';' :: rest)) = .ref name :: pieces rest := by
  have hname : ∀ c ∈ name, (c != ';') = true := by
    intro c hc
    rw [bne_iff_ne]
    rintro rfl
    exact h hc
  have hdrop : (name ++ ';' :: rest).dropWhile (· != ';') = ';' :: rest := by
    rw [List.dropWhile_append_of_pos hname]
    simp
  have htake : (name ++ ';' :: rest).takeWhile (· != ';') = name := by
    rw [List.takeWhile_append_of_pos hname]
    simp
  rw [pieces, if_pos rfl]
  split
  · simp_all
  · simp_all

/-- Without a semicolon there is no class. -/
theorem pieces_open (h : ';' ∉ rest) : pieces ('L' :: rest) = .plain 'L' :: rest.map .plain := by
  have hdrop : rest.dropWhile (· != ';') = [] := by
    rw [List.dropWhile_eq_nil_iff]
    intro c hc
    rw [bne_iff_ne]
    rintro rfl
    exact h hc
  rw [pieces, if_pos rfl]
  split
  · rfl
  · simp_all

theorem semicolon_not_mem_takeWhile (text : List Char) : ';' ∉ text.takeWhile (· != ';') := by
  intro h
  have hall := List.all_takeWhile (p := (· != ';')) (l := text)
  rw [List.all_eq_true] at hall
  have := hall _ h
  simp at this

/-! ## Renaming -/

/-- A renaming that leaves every class as it is leaves descriptors as they are. -/
theorem remap_eq_self {f : String → Option String} (h : ∀ name target, f name = some target →
    target = name) (desc : String) : remap f desc = desc := by
  have hpiece : ∀ p : Piece, p.rename f = p := by
    intro p
    cases p with
    | plain => rfl
    | ref name =>
      simp only [Piece.rename, Piece.ref.injEq]
      rcases hf : f (String.ofList name) with _ | target
      · rfl
      · simp [h _ _ hf]
  unfold remap
  simp only [hpiece]
  rw [flatMap_text_pieces, String.ofList_toList]

/-- The name that a class gets; a class that `f` does not name keeps its own. -/
def renamed (f : String → Option String) (name : String) : String := (f name).getD name

/-- The classes that a descriptor names, in order. -/
def classes (desc : String) : List String :=
  (pieces desc.toList).filterMap fun
    | .ref name => some (String.ofList name)
    | .plain _ => none

theorem mem_classes {desc : String} :
    String.ofList name ∈ classes desc ↔ .ref name ∈ pieces desc.toList := by
  unfold classes
  rw [List.mem_filterMap]
  constructor
  · rintro ⟨p, hp, h⟩
    cases p with
    | plain => cases h
    | ref name' =>
      cases String.ofList_injective (Option.some.inj h)
      exact hp
  · intro h
    exact ⟨_, h, rfl⟩

theorem Piece.rename_ref (f : String → Option String) (name : List Char) :
    (Piece.ref name).rename f = .ref (renamed f (String.ofList name)).toList := by
  unfold renamed
  show Piece.ref ((f (String.ofList name)).elim name String.toList) = _
  rcases f (String.ofList name) with _ | target
  · simp
  · rfl

theorem semicolon_not_mem_renamed (hf : ∀ name target, f name = some target → ';' ∉ target.toList)
    (h : ';' ∉ name) : ';' ∉ (renamed f (String.ofList name)).toList := by
  unfold renamed
  rcases hname : f (String.ofList name) with _ | target
  · simpa using h
  · exact hf _ _ hname

/-- The pieces of a renamed descriptor are the renamed pieces, in the same places. -/
theorem pieces_flatMap_rename (hf : ∀ name target, f name = some target → ';' ∉ target.toList)
    (text : List Char) :
    pieces ((pieces text).flatMap fun p => (p.rename f).text) = (pieces text).map (·.rename f) := by
  fun_induction pieces text with
  | case1 => simp [pieces]
  | case2 rest hnone =>
    have hrest : ';' ∉ rest := by
      intro h
      have := List.dropWhile_eq_nil_iff.1 hnone _ h
      simp at this
    have htext : ((Piece.plain 'L' :: rest.map .plain).flatMap fun p => (p.rename f).text) =
        'L' :: rest := by
      simp [List.flatMap_map, Piece.rename, Piece.text]
    rw [htext, pieces_open hrest]
    simp [Piece.rename]
  | case3 rest c more hsome ih =>
    have hname := semicolon_not_mem_takeWhile rest
    rw [List.flatMap_cons, List.map_cons, Piece.rename_ref, Piece.text, List.append_assoc,
      List.cons_append, List.singleton_append, pieces_ref (semicolon_not_mem_renamed hf hname), ih]
  | case4 c rest hc ih =>
    rw [List.flatMap_cons, List.map_cons, ← ih]
    exact pieces_plain hc _

/-- Lists with the same images are the same, if equal images come from equal items. -/
theorem eq_of_map_eq {α β : Type} {g : α → β} {xs ys : List α}
    (hinj : ∀ x ∈ xs, ∀ y ∈ ys, g x = g y → x = y) (h : xs.map g = ys.map g) : xs = ys := by
  induction xs generalizing ys with
  | nil => simpa using h.symm
  | cons x xs ih =>
    cases ys with
    | nil => simp at h
    | cons y ys =>
      rw [List.map_cons, List.map_cons, List.cons.injEq] at h
      rw [hinj x List.mem_cons_self y List.mem_cons_self h.1,
        ih (fun a ha b hb => hinj a (List.mem_cons_of_mem _ ha) b (List.mem_cons_of_mem _ hb)) h.2]

/-- A renamed descriptor is the same only if the descriptor is, if different classes of both
get different names. -/
theorem remap_inj (hf : ∀ name target, f name = some target → ';' ∉ target.toList)
    {desc desc' : String} (hinj : ∀ name ∈ classes desc, ∀ name' ∈ classes desc',
      renamed f name = renamed f name' → name = name')
    (h : remap f desc = remap f desc') : desc = desc' := by
  have hrename : ∀ p ∈ pieces desc.toList, ∀ p' ∈ pieces desc'.toList,
      p.rename f = p'.rename f → p = p' := by
    intro p hp p' hp' heq
    cases p with
    | plain => cases p' <;> simp_all [Piece.rename]
    | ref name =>
      cases p' with
      | plain => simp [Piece.rename] at heq
      | ref name' =>
        rw [Piece.rename_ref, Piece.rename_ref, Piece.ref.injEq, String.toList_inj] at heq
        have := hinj _ (mem_classes.2 hp) _ (mem_classes.2 hp') heq
        rw [String.ofList_injective this]
  have hpieces :
      (pieces desc.toList).map (·.rename f) = (pieces desc'.toList).map (·.rename f) := by
    rw [← pieces_flatMap_rename hf, ← pieces_flatMap_rename hf]
    exact congrArg pieces (String.ofList_injective h)
  have hsame := eq_of_map_eq hrename hpieces
  rw [← String.toList_inj, ← flatMap_text_pieces desc.toList, hsame, flatMap_text_pieces]

end StableNames.Descriptor
