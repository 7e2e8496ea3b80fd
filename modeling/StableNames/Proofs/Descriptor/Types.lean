-- The laws of renaming the classes of descriptors. To rename twice is to
-- rename once, by one renaming after the other. A descriptor that is made
-- by the grammar of types keeps its shape: only the names of its classes
-- change.
import StableNames.Proofs.Descriptor

namespace StableNames.Descriptor

variable {f g : String → Option String}

/-- No class gets a name with a semicolon. -/
def Sealed (f : String → Option String) : Prop :=
  ∀ name target, f name = some target → ';' ∉ target.toList

/-! ## One renaming after the other -/

/-- First `f` and then `g`; a class that either does not name stays as it is. -/
def andThen (f g : String → Option String) (name : String) : Option String :=
  some (renamed g (renamed f name))

theorem renamed_andThen (f g : String → Option String) (name : String) :
    renamed (andThen f g) name = renamed g (renamed f name) := rfl

theorem Piece.rename_rename (f g : String → Option String) (p : Piece) :
    (p.rename f).rename g = p.rename (andThen f g) := by
  cases p with
  | plain => rfl
  | ref name => simp only [rename_ref, renamed_andThen, String.ofList_toList]

/-- The pieces of a renamed descriptor are the renamed pieces. -/
theorem pieces_remap (hf : Sealed f) (desc : String) :
    pieces (remap f desc).toList = (pieces desc.toList).map (·.rename f) := by
  unfold remap
  rw [String.toList_ofList]
  exact pieces_flatMap_rename hf desc.toList

theorem remap_remap (hf : Sealed f) (g : String → Option String) (desc : String) :
    remap g (remap f desc) = remap (andThen f g) desc := by
  have hpieces := pieces_remap hf desc
  unfold remap at hpieces ⊢
  rw [hpieces, List.flatMap_map]
  simp only [Piece.rename_rename]

/-- The classes of a renamed descriptor are the renamed classes, in the same order. -/
theorem classes_remap (hf : Sealed f) (desc : String) :
    classes (remap f desc) = (classes desc).map (renamed f) := by
  unfold classes
  rw [pieces_remap hf, List.filterMap_map, List.map_filterMap]
  congr 1
  funext p
  cases p with
  | plain => rfl
  | ref name => simp [Piece.rename_ref]

/-! ## The grammar of types -/

inductive Primitive where
  | byte
  | char
  | double
  | float
  | int
  | long
  | short
  | boolean
deriving DecidableEq, Repr

def Primitive.letter : Primitive → Char
  | .byte => 'B'
  | .char => 'C'
  | .double => 'D'
  | .float => 'F'
  | .int => 'I'
  | .long => 'J'
  | .short => 'S'
  | .boolean => 'Z'

theorem Primitive.letter_ne (p : Primitive) : p.letter ≠ 'L' := by
  cases p <;> decide

/-- What a field can hold. -/
inductive FieldType where
  | primitive (p : Primitive)
  | object (name : String)
  | array (item : FieldType)
deriving DecidableEq, Repr

/-- What a method takes and gives; without a result it is void. -/
structure MethodType where
  params : List FieldType
  result? : Option FieldType
deriving DecidableEq, Repr

namespace FieldType

def text : FieldType → List Char
  | .primitive p => [p.letter]
  | .object name => 'L' :: name.toList ++ [';']
  | .array item => '[' :: item.text

/-- The type with each class in it renamed. -/
def rename (f : String → String) : FieldType → FieldType
  | .primitive p => .primitive p
  | .object name => .object (f name)
  | .array item => .array (item.rename f)

/-- No class has a semicolon in its name, which would end the name in the text. -/
def Proper : FieldType → Prop
  | .primitive _ => True
  | .object name => ';' ∉ name.toList
  | .array item => item.Proper

def pieces : FieldType → List Piece
  | .primitive p => [.plain p.letter]
  | .object name => [.ref name.toList]
  | .array item => .plain '[' :: item.pieces

instance decidableProper : (t : FieldType) → Decidable t.Proper
  | .primitive _ => isTrue trivial
  | .object name => inferInstanceAs (Decidable (';' ∉ name.toList))
  | .array item => item.decidableProper

theorem pieces_append {t : FieldType} (h : t.Proper) (rest : List Char) :
    Descriptor.pieces (t.text ++ rest) = t.pieces ++ Descriptor.pieces rest := by
  induction t with
  | primitive p => exact pieces_plain (Primitive.letter_ne p) rest
  | object name =>
    have htext : (FieldType.object name).text ++ rest = 'L' :: (name.toList ++ ';' :: rest) := by
      simp [text]
    rw [htext]
    exact pieces_ref h rest
  | array item ih =>
    have hbracket := pieces_plain (c := '[') (by decide) (item.text ++ rest)
    rw [ih h] at hbracket
    exact hbracket

theorem pieces_text {t : FieldType} (h : t.Proper) : Descriptor.pieces t.text = t.pieces := by
  have hpieces := pieces_append h []
  rwa [List.append_nil, pieces_nil, List.append_nil] at hpieces

theorem flatMap_rename_pieces (f : String → Option String) (t : FieldType) :
    (t.pieces.flatMap fun p => (p.rename f).text) = (t.rename (renamed f)).text := by
  induction t with
  | primitive p => rfl
  | object name => simp [pieces, rename, text, Piece.rename_ref, Piece.text]
  | array item ih =>
    show '[' :: (item.pieces.flatMap fun p => (p.rename f).text) = _
    rw [ih]
    rfl

theorem Proper.rename (hf : Sealed f) {t : FieldType} (h : t.Proper) :
    (t.rename (renamed f)).Proper := by
  induction t with
  | primitive p => trivial
  | object name =>
    have hname := semicolon_not_mem_renamed hf h
    rwa [String.ofList_toList] at hname
  | array item ih => exact ih h

end FieldType

/-- Types side by side. -/
theorem pieces_flatMap_text {ts : List FieldType} (h : ∀ t ∈ ts, t.Proper) (rest : List Char) :
    pieces (ts.flatMap FieldType.text ++ rest) = ts.flatMap FieldType.pieces ++ pieces rest := by
  induction ts with
  | nil => rfl
  | cons t ts ih =>
    rw [List.forall_mem_cons] at h
    rw [List.flatMap_cons, List.flatMap_cons, List.append_assoc, FieldType.pieces_append h.1,
      ih h.2, List.append_assoc]

namespace MethodType

/-- The text of a result. -/
def resultText (result? : Option FieldType) : List Char := result?.elim ['V'] FieldType.text

def text (m : MethodType) : List Char :=
  '(' :: (m.params.flatMap FieldType.text ++ ')' :: resultText m.result?)

def rename (f : String → String) (m : MethodType) : MethodType where
  params := m.params.map (·.rename f)
  result? := m.result?.map (·.rename f)

def Proper (m : MethodType) : Prop :=
  (∀ t ∈ m.params, t.Proper) ∧ ∀ t ∈ m.result?, t.Proper

instance (m : MethodType) : Decidable m.Proper := by
  unfold Proper
  infer_instance

theorem remap_resultText {result? : Option FieldType} (h : ∀ t ∈ result?, t.Proper) :
    ((pieces (resultText result?)).flatMap fun p => (p.rename f).text) =
      resultText (result?.map (·.rename (renamed f))) := by
  cases result? with
  | none =>
    show ((pieces ['V']).flatMap fun p => (p.rename f).text) = ['V']
    rw [pieces_plain (by decide), pieces_nil]
    rfl
  | some t =>
    show ((pieces t.text).flatMap fun p => (p.rename f).text) = (t.rename (renamed f)).text
    rw [FieldType.pieces_text (h t rfl), FieldType.flatMap_rename_pieces]

theorem Proper.rename (hf : Sealed f) {m : MethodType} (h : m.Proper) :
    (m.rename (renamed f)).Proper := by
  constructor
  · intro t ht
    obtain ⟨t', ht', rfl⟩ := List.mem_map.1 ht
    exact (h.1 t' ht').rename hf
  · intro t ht
    obtain ⟨t', ht', rfl⟩ := Option.map_eq_some_iff.1 ht
    exact (h.2 t' ht').rename hf

end MethodType

/-! ## Descriptors of types -/

/-- Of the type of a field, only the names of classes change. -/
theorem remap_fieldType (f : String → Option String) {t : FieldType} (h : t.Proper) :
    remap f (String.ofList t.text) = String.ofList (t.rename (renamed f)).text := by
  unfold remap
  rw [String.toList_ofList, FieldType.pieces_text h, FieldType.flatMap_rename_pieces]

/-- Of the type of a method, only the names of classes change. -/
theorem remap_methodType (f : String → Option String) {m : MethodType} (h : m.Proper) :
    remap f (String.ofList m.text) = String.ofList (m.rename (renamed f)).text := by
  have hparams : (m.params.flatMap FieldType.pieces).flatMap (fun p => (p.rename f).text) =
      (m.params.map (·.rename (renamed f))).flatMap FieldType.text := by
    rw [List.flatMap_assoc, List.flatMap_map]
    simp only [FieldType.flatMap_rename_pieces]
  unfold remap MethodType.text
  rw [String.toList_ofList, pieces_plain (by decide), pieces_flatMap_text h.1,
    pieces_plain (by decide), List.flatMap_cons, List.flatMap_append, List.flatMap_cons,
    MethodType.remap_resultText h.2, hparams]
  rfl

/-- To rename nothing changes nothing, and to rename twice is to rename once. In the descriptor
of a type the classes are renamed and all else stays. If different classes of two descriptors
get different names, then different descriptors get different results. -/
theorem renaming_is_functorial_and_injective (hf : Sealed f) :
    (∀ desc, remap (fun _ => none) desc = desc) ∧
    (∀ g desc, remap g (remap f desc) = remap (andThen f g) desc) ∧
    (∀ t : FieldType, t.Proper → (t.rename (renamed f)).Proper ∧
      remap f (String.ofList t.text) = String.ofList (t.rename (renamed f)).text) ∧
    (∀ m : MethodType, m.Proper → (m.rename (renamed f)).Proper ∧
      remap f (String.ofList m.text) = String.ofList (m.rename (renamed f)).text) ∧
    (∀ desc, classes (remap f desc) = (classes desc).map (renamed f)) ∧
    ∀ desc desc', (∀ name ∈ classes desc, ∀ name' ∈ classes desc',
      renamed f name = renamed f name' → name = name') →
      remap f desc = remap f desc' → desc = desc' := by
  refine ⟨?_, ?_, ?_, ?_, ?_, ?_⟩
  · intro desc
    apply remap_eq_self
    intro name target h
    cases h
  · exact remap_remap hf
  · intro t ht
    exact ⟨ht.rename hf, remap_fieldType f ht⟩
  · intro m hm
    exact ⟨hm.rename hf, remap_methodType f hm⟩
  · exact classes_remap hf
  · intro desc desc' hinj
    exact remap_inj hf hinj

/-- The class `b` becomes `a`, and `a` is called by the letter that marks a class. -/
def shifted (name : String) : Option String :=
  if name = "a" then some "LL" else if name = "b" then some "a" else none

theorem sealed_shifted : Sealed shifted := by
  intro name target h
  unfold shifted at h
  split at h
  · cases h
    decide
  · split at h
    · cases h
      decide
    · cases h

/-- A method that takes an array of `a`, a number and a `b`. -/
def shiftedMethod : MethodType where
  params := [.array (.object "a"), .primitive .long, .object "b"]
  result? := none

theorem renaming_is_functorial_and_injective_shifted :
    Sealed shifted ∧ shiftedMethod.Proper ∧
      remap shifted "([La;JLb;)V" = "([LLL;JLa;)V" ∧
      remap shifted (remap shifted "([La;JLb;)V") = remap (andThen shifted shifted) "([La;JLb;)V" ∧
      classes (remap shifted "([La;JLb;)V") = ["LL", "a"] := by
  have hproper : shiftedMethod.Proper := by decide +kernel
  obtain ⟨-, htwice, -, hmethod, hclasses, -⟩ :=
    renaming_is_functorial_and_injective sealed_shifted
  refine ⟨sealed_shifted, hproper, (hmethod shiftedMethod hproper).2, htwice _ _, ?_⟩
  rw [hclasses]
  decide +kernel

end StableNames.Descriptor
