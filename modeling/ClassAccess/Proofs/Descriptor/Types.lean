import ClassAccess.Descriptor.Tree
import ClassAccess.Proofs.Descriptor.Renaming

/-!
# Renaming in the descriptors of types

A descriptor is renamed as a text, without a look at the types that it tells. What comes of it is
the descriptor of the same types with other names all the same, because the pieces of the text are
the pieces of the types.

* `TypeTree.pieces`, `pieces_text` -- **the pieces of a descriptor are those of its types**;
* `renameM_text` -- the names of the types are asked for in their order, whatever asking does;
* `noting`, `run_renameM_noting` -- renaming with every name noted down that is asked for: these are
  the `names` of the text, and it is renamed as by `rename`;
* `rename_typeTree` -- **renaming a descriptor is renaming its types**.
-/

namespace ClassAccess.Descriptor

/-! ## 1. The pieces of types -/

/-- The pieces of the descriptor of a type. -/
def ValueType.pieces : ValueType → List Piece
  | primitive type => [.letter type.letter]
  | named name => [.name name.toList]
  | array items => .letter '[' :: items.pieces

/-- The pieces of a descriptor. -/
def TypeTree.pieces : TypeTree → List Piece
  | field type => type.pieces
  | method parameters result =>
    .letter '(' :: parameters.flatMap ValueType.pieces ++
      .letter ')' :: (result.map ValueType.pieces).getD [.letter 'V']

theorem chars_append (ps qs : List Piece) : chars (ps ++ qs) = chars ps ++ chars qs :=
  List.flatMap_append

theorem chars_letter_cons (c : Char) (ps : List Piece) : chars (.letter c :: ps) = c :: chars ps :=
  rfl

namespace ValueType

theorem chars_pieces (t : ValueType) : Descriptor.chars t.pieces = t.chars := by
  induction t with
  | primitive type => rfl
  | named name => rw [pieces, chars_name_cons]; rfl
  | array items ih => rw [pieces, chars_letter_cons, ih]; rfl

/-- No type without parts is taken for a name. -/
theorem letter_ne (type : Primitive) : type.letter ≠ 'L' := by
  cases type <;> decide

theorem readable_append {t : ValueType} (h : t.WellNamed) {rest : List Piece}
    (hrest : Readable rest) : Readable (t.pieces ++ rest) := by
  induction t with
  | primitive type => exact ⟨letter_ne type, hrest⟩
  | named name => exact ⟨(h name (List.mem_singleton_self _)).2, hrest⟩
  | array items ih => exact ⟨by decide, ih h⟩

end ValueType

namespace TypeTree

theorem chars_flatMap (types : List ValueType) :
    Descriptor.chars (types.flatMap ValueType.pieces) = types.flatMap ValueType.chars := by
  induction types with
  | nil => rfl
  | cons t types ih =>
      rw [List.flatMap_cons, chars_append, ValueType.chars_pieces, ih, List.flatMap_cons]

theorem chars_pieces (t : TypeTree) : Descriptor.chars t.pieces = t.chars := by
  cases t with
  | field type => exact ValueType.chars_pieces type
  | method parameters result =>
      have hresult : Descriptor.chars ((result.map ValueType.pieces).getD [.letter 'V']) =
          (result.map ValueType.chars).getD ['V'] := by
        cases result with
        | none => rfl
        | some type => exact ValueType.chars_pieces type
      rw [pieces, List.cons_append, chars_letter_cons, chars_append, chars_letter_cons,
        chars_flatMap, hresult]
      rfl

theorem readable_flatMap {types : List ValueType} (h : ∀ t ∈ types, t.WellNamed)
    {rest : List Piece} (hrest : Readable rest) :
    Readable (types.flatMap ValueType.pieces ++ rest) := by
  induction types with
  | nil => exact hrest
  | cons t types ih =>
      obtain ⟨ht, htypes⟩ := List.forall_mem_cons.1 h
      rw [List.flatMap_cons, List.append_assoc]
      exact ValueType.readable_append ht (ih htypes)

theorem readable_pieces {t : TypeTree} (h : t.WellNamed) : Readable t.pieces := by
  cases t with
  | field type =>
      have htype : Readable (type.pieces ++ []) :=
        ValueType.readable_append (h type (List.mem_singleton_self _)) trivial
      rwa [List.append_nil] at htype
  | method parameters result =>
      obtain ⟨hparameters, hresult⟩ := List.forall_mem_append.1 h
      have hback : Readable ((result.map ValueType.pieces).getD [.letter 'V']) := by
        cases result with
        | none => exact ⟨by decide, trivial⟩
        | some type =>
            have htype : Readable (type.pieces ++ []) :=
              ValueType.readable_append (hresult type (List.mem_singleton_self _)) trivial
            rwa [List.append_nil] at htype
      have hclosed : Readable (.letter ')' :: (result.map ValueType.pieces).getD [.letter 'V']) :=
        ⟨by decide, hback⟩
      exact ⟨by decide, readable_flatMap hparameters hclosed⟩

/-- **The pieces of a descriptor are those of its types.** -/
theorem pieces_text {t : TypeTree} (h : t.WellNamed) :
    Descriptor.pieces t.text.toList = t.pieces := by
  rw [text, String.toList_ofList, ← chars_pieces, pieces_chars (readable_pieces h)]

end TypeTree

/-! ## 2. Asking for names -/

section Asking

variable {m : Type → Type} [Monad m] [LawfulMonad m] (ask : String → m (Option String))

/-- Asking what a name becomes, if a name that nothing is told for stays. -/
def renamedM (name : String) : m String := do
  return (← ask name).getD name

/-- The names of a type are asked for where its pieces are. -/
theorem ValueType.mapM_pieces (t : ValueType) :
    t.pieces.mapM (Piece.renameM ask) = pieces <$> t.mapNamesM (renamedM ask) := by
  induction t with
  | primitive type => simp [pieces, mapNamesM, Piece.renameM]
  | named name => simp [pieces, mapNamesM, Piece.renameM, renamedM, String.ofList_toList]
  | array items ih => simp [pieces, mapNamesM, Piece.renameM, ih]

theorem TypeTree.mapM_flatMap (types : List ValueType) :
    (types.flatMap ValueType.pieces).mapM (Piece.renameM ask) =
      (List.flatMap ValueType.pieces) <$> types.mapM (ValueType.mapNamesM (renamedM ask)) := by
  induction types with
  | nil => simp
  | cons t types ih => simp [List.mapM_append, ValueType.mapM_pieces, ih]

theorem TypeTree.mapM_pieces (t : TypeTree) :
    t.pieces.mapM (Piece.renameM ask) = pieces <$> t.mapNamesM (renamedM ask) := by
  cases t with
  | field type => simp [pieces, mapNamesM, ValueType.mapM_pieces]
  | method parameters result =>
      cases result with
      | none => simp [pieces, mapNamesM, Piece.renameM, List.mapM_append, mapM_flatMap]
      | some type =>
          simp [pieces, mapNamesM, Piece.renameM, List.mapM_append, mapM_flatMap,
            ValueType.mapM_pieces]

/-- **The names of the types are asked for in their order**, whatever asking does, and the text of
    the types with the names that it gives is what comes of it. -/
theorem renameM_text {t : TypeTree} (h : t.WellNamed) :
    renameM ask t.text = TypeTree.text <$> t.mapNamesM (renamedM ask) := by
  have htext : (fun t' : TypeTree => String.ofList (chars t'.pieces)) = TypeTree.text := by
    funext t'
    rw [TypeTree.chars_pieces]
    rfl
  rw [renameM, TypeTree.pieces_text h, TypeTree.mapM_pieces, map_eq_pure_bind, bind_assoc]
  simp only [pure_bind]
  rw [← map_eq_pure_bind, htext]

end Asking

/-! ## 3. Names noted down -/

variable (f : String → Option String)

/-- Telling what a name becomes, and noting down that it was asked for. -/
def noting (name : String) : StateM (List String) (Option String) := do
  modify (· ++ [name])
  return f name

theorem Piece.renameM_noting (p : Piece) (asked : List String) :
    (p.renameM (noting f)).run asked = pure (p.rename f, asked ++ p.name?.toList) := by
  cases p with
  | letter | tail => simp [Piece.renameM, Piece.rename, Piece.name?]
  | name cs =>
      rw [Piece.rename_name]
      rfl

/-- **Renaming asks for the `names` of a text**, one after the other, and comes to what `rename`
    does. -/
theorem run_renameM_noting (text : String) (asked : List String) :
    (renameM (noting f) text).run asked = pure (rename f text, asked ++ names text) := by
  have hpieces : ∀ (ps : List Piece) (asked : List String),
      (ps.mapM (Piece.renameM (noting f))).run asked =
        pure (ps.map (Piece.rename f), asked ++ ps.filterMap Piece.name?) := by
    intro ps
    induction ps with
    | nil => simp
    | cons p ps ih =>
        intro asked
        have hnames : p.name?.toList ++ ps.filterMap Piece.name? =
            (p :: ps).filterMap Piece.name? := by
          rw [List.filterMap_cons]
          cases p.name? <;> rfl
        rw [List.mapM_cons, ← hnames, ← List.append_assoc]
        simp [Piece.renameM_noting, ih]
  simp [renameM, hpieces, rename, names]

theorem ValueType.run_mapNamesM_noting (t : ValueType) (asked : List String) :
    (t.mapNamesM (renamedM (noting f))).run asked =
      pure (t.mapNames (renamed f), asked ++ t.names) := by
  induction t generalizing asked with
  | primitive type => simp [mapNamesM, mapNames, names]
  | named name => rfl
  | array items ih => simp [mapNamesM, mapNames, names, ih]

/-- The names of types in a row are noted down type by type. -/
theorem TypeTree.run_mapM_noting (types : List ValueType) (asked : List String) :
    (types.mapM (ValueType.mapNamesM (renamedM (noting f)))).run asked =
      pure (types.map (ValueType.mapNames (renamed f)),
        asked ++ types.flatMap ValueType.names) := by
  induction types generalizing asked with
  | nil => simp
  | cons t types ih => simp [ValueType.run_mapNamesM_noting, ih]

/-- **The names of the types are noted down in their order.** -/
theorem TypeTree.run_mapNamesM_noting (t : TypeTree) (asked : List String) :
    (t.mapNamesM (renamedM (noting f))).run asked =
      pure (t.mapNames (renamed f), asked ++ t.names) := by
  cases t with
  | field type => simp [mapNamesM, mapNames, names, types, ValueType.run_mapNamesM_noting]
  | method parameters result =>
      cases result with
      | none => simp [mapNamesM, mapNames, names, types, run_mapM_noting]
      | some type =>
          simp [mapNamesM, mapNames, names, types, run_mapM_noting,
            ValueType.run_mapNamesM_noting]

/-! ## 4. Types with other names -/

/-- **Renaming a descriptor is renaming its types.** What comes of the text is the descriptor of the
    same types with other names, whatever the names. The names that are asked for are those of the
    types, each one as often as it occurs, from the first parameter to the result; and whatever
    asking for a name does besides, it is done in this order. -/
theorem rename_typeTree {t : TypeTree} (h : t.WellNamed) (f : String → Option String) :
    rename f t.text = (t.mapNames (renamed f)).text ∧
      names t.text = t.names ∧
      (∀ asked, (renameM (noting f) t.text).run asked =
        ((t.mapNames (renamed f)).text, asked ++ t.names)) ∧
      ∀ (σ : Type) (ask : String → StateM σ (Option String)),
        renameM ask t.text = TypeTree.text <$> t.mapNamesM (renamedM ask) := by
  have hrun : ∀ asked, (renameM (noting f) t.text).run asked =
      pure ((t.mapNames (renamed f)).text, asked ++ t.names) := by
    intro asked
    rw [renameM_text _ h, StateT.run_map, TypeTree.run_mapNamesM_noting, map_pure]
  have htext : (rename f t.text, [] ++ names t.text) =
      ((t.mapNames (renamed f)).text, [] ++ t.names) :=
    (run_renameM_noting f t.text []).symm.trans (hrun [])
  obtain ⟨hrename, hnames⟩ := Prod.mk.inj htext
  exact ⟨hrename, hnames, hrun, fun σ ask => renameM_text ask h⟩

/-- A method whose first class is named like the start of a descriptor. -/
def lookalike : TypeTree :=
  .method [.named "LLa(", .primitive .int, .array (.array (.named "a")), .named "b"]
    (some (.named "a"))

theorem wellNamed_lookalike : lookalike.WellNamed := by
  unfold TypeTree.WellNamed ValueType.WellNamed
  decide

theorem rename_typeTree_lookalike :
    lookalike.text = "(LLLa(;I[[La;Lb;)La;" ∧
      rename hiddenNames lookalike.text = "(LLLa(;I[[Lx/L(Y;Lb;)Lx/L(Y;" ∧
      (renameM (noting hiddenNames) lookalike.text).run [] =
        ("(LLLa(;I[[Lx/L(Y;Lb;)Lx/L(Y;", ["LLa(", "a", "b", "a"]) := by
  have htext : (lookalike.mapNames (renamed hiddenNames)).text =
      "(LLLa(;I[[Lx/L(Y;Lb;)Lx/L(Y;" := by decide +kernel
  obtain ⟨hrename, -, hasked, -⟩ := rename_typeTree wellNamed_lookalike hiddenNames
  rw [htext] at hrename
  refine ⟨by decide +kernel, hrename, ?_⟩
  have hempty := hasked []
  rwa [htext] at hempty

end ClassAccess.Descriptor
