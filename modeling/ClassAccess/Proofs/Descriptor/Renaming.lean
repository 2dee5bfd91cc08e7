import ClassAccess.Descriptor
import Mathlib.Data.List.TakeDrop
import Mathlib.Data.List.TakeWhile

/-!
# Renaming in descriptors

Renaming keeps the pieces of a text apart, so that names renamed twice are renamed at once. This is
so for any text, whether or not it is a descriptor.

* `Readable`, `readable_pieces`, `pieces_chars` -- the pieces of a text, told from any others: these
  and no others are found again in their text;
* `pieces_rename` -- the pieces of a renamed text;
* `rename_congr`, `rename_of_forall` -- **only what is told for the names of the text matters**;
* `rename_rename` -- **renaming twice is renaming once**;
* `Renames`, `renames_iff` -- what a renamed text is, told without pieces;
* `rename_composes` -- **renaming composes on every text**, and a renaming that is undone name by
  name is undone.
-/

namespace ClassAccess.Descriptor

/-! ## 1. Pieces that are found again -/

/-- Whether some pieces are those of their text: a letter is not mistaken for the start of a name,
    a name ends where it should, and a tail is the end. -/
def Readable : List Piece → Prop
  | [] => True
  | .letter c :: rest => c ≠ 'L' ∧ Readable rest
  | .name chars :: rest => ';' ∉ chars ∧ Readable rest
  | .tail chars :: rest => ';' ∉ chars ∧ rest = []

theorem pieces_letter {c : Char} (h : c ≠ 'L') (rest : List Char) :
    pieces (c :: rest) = .letter c :: pieces rest := by
  rw [pieces, if_neg h]

/-- Up to its semicolon a name is cut off. -/
theorem pieces_name {chars : List Char} (h : ';' ∉ chars) (rest : List Char) :
    pieces ('L' :: (chars ++ ';' :: rest)) = .name chars :: pieces rest := by
  have hall : ∀ c ∈ chars, decide (c ≠ ';') = true := fun c hc =>
    decide_eq_true fun he => h (he ▸ hc)
  have hdrop : (chars ++ ';' :: rest).dropWhile (· ≠ ';') = ';' :: rest := by
    rw [List.dropWhile_append_of_pos hall]
    rfl
  have htake : (chars ++ ';' :: rest).takeWhile (· ≠ ';') = chars := by
    rw [List.takeWhile_append_of_pos hall]
    exact List.append_nil chars
  rw [pieces, if_pos rfl]
  split
  · rename_i he
    rw [hdrop] at he
    cases he
  · rename_i he
    rw [hdrop] at he
    cases he
    rw [htake]

theorem pieces_tail {chars : List Char} (h : ';' ∉ chars) :
    pieces ('L' :: chars) = [.tail chars] := by
  have hdrop : chars.dropWhile (· ≠ ';') = [] :=
    List.dropWhile_eq_nil_iff.2 fun c hc => decide_eq_true fun he => h (he ▸ hc)
  rw [pieces, if_pos rfl]
  split
  · rfl
  · rename_i he
    rw [hdrop] at he
    cases he

theorem chars_name_cons (cs : List Char) (ps : List Piece) :
    chars (.name cs :: ps) = 'L' :: (cs ++ ';' :: chars ps) := by
  simp only [chars, Piece.chars, List.flatMap_cons, List.cons_append, List.append_assoc,
    List.nil_append]

theorem chars_tail (cs : List Char) : chars [.tail cs] = 'L' :: cs := List.append_nil _

/-- **Readable pieces are found again in their text.** -/
theorem pieces_chars {ps : List Piece} (h : Readable ps) : pieces (chars ps) = ps := by
  induction ps with
  | nil => rw [chars, List.flatMap_nil, pieces]
  | cons p ps ih =>
      cases p with
      | letter c =>
          have hchars : chars (.letter c :: ps) = c :: chars ps := rfl
          rw [hchars, pieces_letter h.1, ih h.2]
      | name cs =>
          rw [chars_name_cons, pieces_name h.1, ih h.2]
      | tail cs =>
          obtain ⟨hcs, rfl⟩ := h
          rw [chars_tail, pieces_tail hcs]

/-- **The pieces of a text are readable.** -/
theorem readable_pieces (text : List Char) : Readable (pieces text) := by
  fun_induction pieces text with
  | case1 => exact trivial
  | case2 rest h =>
      refine ⟨fun hmem => ?_, rfl⟩
      have hsemicolon := List.dropWhile_eq_nil_iff.1 h ';' hmem
      exact of_decide_eq_true hsemicolon rfl
  | case3 rest c after h ih =>
      refine ⟨fun hmem => ?_, ih⟩
      have hsemicolon := List.mem_takeWhile_imp hmem
      exact of_decide_eq_true hsemicolon rfl
  | case4 c rest hc ih => exact ⟨hc, ih⟩

/-! ## 2. Renaming -/

variable {f g : String → Option String} {ps : List Piece} {text : String}

/-- What a name becomes: a name that nothing is told for stays. -/
def renamed (f : String → Option String) (name : String) : String := (f name).getD name

theorem Piece.rename_name (f : String → Option String) (cs : List Char) :
    (Piece.name cs).rename f = .name (renamed f (String.ofList cs)).toList := by
  unfold renamed
  rw [Piece.rename]
  cases f (String.ofList cs) with
  | none => simp only [Option.getD_none, String.toList_ofList]
  | some new => rfl

/-- A name that is readable has no semicolon. -/
theorem Readable.not_mem (h : Readable ps) {cs : List Char} (hcs : .name cs ∈ ps) : ';' ∉ cs := by
  induction ps with
  | nil => cases hcs
  | cons p ps ih =>
      rcases List.mem_cons.1 hcs with rfl | hps
      · exact h.1
      · cases p with
        | letter | name => exact ih h.2 hps
        | tail =>
            rw [h.2] at hps
            cases hps

/-- **Renamed pieces stay readable**, as long as no new name has a semicolon. -/
theorem Readable.map_rename (h : Readable ps)
    (hf : ∀ cs, .name cs ∈ ps → ';' ∉ (renamed f (String.ofList cs)).toList) :
    Readable (ps.map (Piece.rename f)) := by
  induction ps with
  | nil => exact trivial
  | cons p ps ih =>
      have hrest := fun cs hcs => hf cs (List.mem_cons_of_mem _ hcs)
      cases p with
      | letter c => exact ⟨h.1, ih h.2 hrest⟩
      | name cs =>
          rw [List.map_cons, Piece.rename_name]
          exact ⟨hf cs List.mem_cons_self, ih h.2 hrest⟩
      | tail cs => exact ⟨h.1, by rw [h.2]; rfl⟩

/-- The pieces of a renamed text. -/
theorem pieces_rename (hf : ∀ name new, f name = some new → ';' ∉ new.toList) (text : String) :
    pieces (rename f text).toList = (pieces text.toList).map (Piece.rename f) := by
  have hread := readable_pieces text.toList
  rw [rename, String.toList_ofList, pieces_chars (hread.map_rename fun cs hcs => ?_)]
  unfold renamed
  cases hnew : f (String.ofList cs) with
  | none =>
      rw [Option.getD_none, String.toList_ofList]
      exact hread.not_mem hcs
  | some new => exact hf _ _ hnew

theorem mem_names {cs : List Char} (h : .name cs ∈ pieces text.toList) :
    String.ofList cs ∈ names text :=
  List.mem_filterMap.2 ⟨_, h, rfl⟩

/-- **Only what is told for the names of a text matters.** -/
theorem rename_congr (h : ∀ name ∈ names text, renamed f name = renamed g name) :
    rename f text = rename g text := by
  unfold rename
  congr 2
  refine List.map_congr_left fun p hp => ?_
  cases p with
  | letter | tail => rfl
  | name cs => rw [Piece.rename_name, Piece.rename_name, h _ (mem_names hp)]

/-- A text whose names stay is the same. -/
theorem rename_of_forall (h : ∀ name ∈ names text, renamed f name = name) :
    rename f text = text := by
  have hnone : rename (fun _ => none) text = text := by
    have hid : Piece.rename (fun _ => none) = id := by
      funext p
      cases p <;> rfl
    rw [rename, hid, List.map_id, chars_pieces, String.ofList_toList]
  exact (rename_congr h).trans hnone

/-- **Renaming twice is renaming once.** -/
theorem rename_rename (hf : ∀ name new, f name = some new → ';' ∉ new.toList) (text : String) :
    rename g (rename f text) = rename (fun name => some (renamed g (renamed f name))) text := by
  rw [rename, pieces_rename hf, List.map_map, rename]
  congr 2
  refine List.map_congr_left fun p _ => ?_
  cases p with
  | letter | tail => rfl
  | name cs =>
      rw [Function.comp_apply, Piece.rename_name, Piece.rename_name, Piece.rename_name,
        String.ofList_toList]
      rfl

/-! ## 3. Renaming, told without pieces -/

/-- Whether a text is another one with every name between the letter `L` and the next semicolon
    replaced. Where no semicolon follows, the rest stands as it is. -/
inductive Renames (f : String → String) : List Char → List Char → Prop
  | nil : Renames f [] []
  | letter {c : Char} {rest rest' : List Char} (hc : c ≠ 'L') (h : Renames f rest rest') :
      Renames f (c :: rest) (c :: rest')
  | name {cs rest rest' : List Char} (hcs : ';' ∉ cs) (h : Renames f rest rest') :
      Renames f ('L' :: (cs ++ ';' :: rest))
        ('L' :: ((f (String.ofList cs)).toList ++ ';' :: rest'))
  | tail {cs : List Char} (hcs : ';' ∉ cs) : Renames f ('L' :: cs) ('L' :: cs)

theorem renames_chars (h : Readable ps) :
    Renames (renamed f) (chars ps) (chars (ps.map (Piece.rename f))) := by
  induction ps with
  | nil => exact .nil
  | cons p ps ih =>
      cases p with
      | letter c => exact .letter h.1 (ih h.2)
      | name cs =>
          rw [List.map_cons, Piece.rename_name, chars_name_cons, chars_name_cons]
          exact .name h.1 (ih h.2)
      | tail cs =>
          obtain ⟨hcs, rfl⟩ := h
          change Renames _ (chars [.tail cs]) (chars [.tail cs])
          rw [chars_tail]
          exact .tail hcs

theorem Renames.eq_chars {cs cs' : List Char} (h : Renames (renamed f) cs cs') :
    cs' = chars ((pieces cs).map (Piece.rename f)) := by
  induction h with
  | nil => rw [pieces]; rfl
  | letter hc _ ih => rw [pieces_letter hc, ih]; rfl
  | name hcs _ ih =>
      rw [pieces_name hcs, List.map_cons, Piece.rename_name, chars_name_cons, ih]
  | tail hcs => rw [pieces_tail hcs]; exact (chars_tail _).symm

/-- **A text is replaced name by name**, and in no other place. -/
theorem renames_iff {text' : String} :
    Renames (renamed f) text.toList text'.toList ↔ rename f text = text' := by
  constructor
  · intro h
    rw [rename, ← h.eq_chars, String.ofList_toList]
  · rintro rfl
    rw [rename, String.toList_ofList]
    have h := renames_chars (f := f) (readable_pieces text.toList)
    rwa [chars_pieces] at h

instance (f : String → Option String) (text text' : String) :
    Decidable (Renames (renamed f) text.toList text'.toList) :=
  decidable_of_iff _ renames_iff.symm

/-! ## 4. There and back -/

/-- **The names of a renamed text are the new names**, in the places of the old ones. -/
theorem names_rename (hf : ∀ name new, f name = some new → ';' ∉ new.toList) (text : String) :
    names (rename f text) = (names text).map (renamed f) := by
  have hpiece : ∀ p : Piece, (p.rename f).name? = p.name?.map (renamed f) := by
    intro p
    cases p with
    | letter | tail => rfl
    | name cs =>
        rw [Piece.rename_name, Piece.name?, String.ofList_toList]
        rfl
  have hcomp : Piece.name? ∘ Piece.rename f = fun p => p.name?.map (renamed f) := funext hpiece
  rw [names, pieces_rename hf, List.filterMap_map, hcomp, names, List.map_filterMap]

/-- **Renaming composes on every text**, whether or not it is a descriptor. If no new name has a
    semicolon, then the second renaming meets the new names where the first one met the old ones,
    and both come to one renaming by the two maps after each other. A renaming that is undone on
    every name of the text is undone. -/
theorem rename_composes (f g : String → Option String)
    (hf : ∀ name new, f name = some new → ';' ∉ new.toList) (text : String) :
    rename g (rename f text) = rename (fun name => some (renamed g (renamed f name))) text ∧
      Renames (fun name => renamed g (renamed f name)) text.toList
        (rename g (rename f text)).toList ∧
      names (rename f text) = (names text).map (renamed f) ∧
      ((∀ name ∈ names text, renamed g (renamed f name) = name) →
        rename g (rename f text) = text) := by
  have htwice := rename_rename (g := g) hf text
  refine ⟨htwice, ?_, names_rename hf text, fun h => ?_⟩
  · exact renames_iff (f := fun name => some (renamed g (renamed f name))) |>.2 htwice.symm
  · rw [htwice]
    exact rename_of_forall h

/-- A map that gives a name with the letter `L` and a parenthesis to one class, and an empty name to
    another. -/
def hiddenNames : String → Option String
  | "a" => some "x/L(Y"
  | "La" => some ""
  | _ => none

/-- The map back. -/
def shownNames : String → Option String
  | "x/L(Y" => some "a"
  | "" => some "La"
  | _ => none

theorem not_mem_hiddenNames (name new : String) (h : hiddenNames name = some new) :
    ';' ∉ new.toList := by
  unfold hiddenNames at h
  split at h
  · cases h
    decide
  · cases h
    decide
  · cases h

/-- There and back in a text that is no descriptor and ends inside a name. -/
theorem rename_composes_hidden :
    rename hiddenNames ")La;?LLa;;[L(La" = ")Lx/L(Y;?L;;[L(La" ∧
      rename shownNames ")Lx/L(Y;?L;;[L(La" = ")La;?LLa;;[L(La" := by
  have hrename : rename hiddenNames ")La;?LLa;;[L(La" = ")Lx/L(Y;?L;;[L(La" := by decide +kernel
  have hnames : names ")La;?LLa;;[L(La" = ["a", "La"] := by decide +kernel
  obtain ⟨-, -, -, hback⟩ := rename_composes hiddenNames shownNames
    not_mem_hiddenNames ")La;?LLa;;[L(La"
  rw [hrename, hnames] at hback
  exact ⟨hrename, hback (by decide)⟩

end ClassAccess.Descriptor
