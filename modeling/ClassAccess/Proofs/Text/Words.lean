import ClassAccess.Text.Blank
import ClassAccess.Text.Line

/-!
# Words and lines read back

Words divided by blanks, and lines that are ended, are found again where they were put together.

* `mem_words` -- a word has a character, and **no blank**; its characters are those of the text;
* `words_append_blank`, `words_of_forall` -- **words that are written with blanks between them are
  read as they were**;
* `split_lines` -- **lines that are written each with its end are read as they were**;
* `split_append_ended`, `split_intercalate` -- the lines of texts that are put together.
-/

namespace ClassAccess

/-! ## 1. Words -/

namespace Blank

theorem cons_of_ne_nil {begun : List Char} (h : begun ≠ []) (words : List (List Char)) :
    cons begun words = begun.reverse :: words :=
  if_neg (by rwa [List.isEmpty_iff])

/-- A word that may still be empty is a word if it is not. -/
theorem mem_cons {begun w : List Char} {words : List (List Char)} (h : w ∈ cons begun words) :
    w = begun.reverse ∧ begun ≠ [] ∨ w ∈ words := by
  by_cases hb : begun = []
  · subst hb
    exact .inr h
  · rw [cons_of_ne_nil hb] at h
    rcases List.mem_cons.1 h with rfl | h
    · exact .inl ⟨rfl, hb⟩
    · exact .inr h

theorem mem_wordsFrom {text : List Char} : ∀ {begun w : List Char},
    (∀ c ∈ begun, isBlank c = false) → w ∈ wordsFrom begun text →
      w ≠ [] ∧ ∀ c ∈ w, isBlank c = false ∧ (c ∈ begun ∨ c ∈ text) := by
  -- the word that has begun, once it is ended
  have ended : ∀ {begun w : List Char} {text : List Char}, (∀ c ∈ begun, isBlank c = false) →
      w = begun.reverse ∧ begun ≠ [] →
        w ≠ [] ∧ ∀ c ∈ w, isBlank c = false ∧ (c ∈ begun ∨ c ∈ text) := by
    rintro begun w text hb ⟨rfl, hne⟩
    refine ⟨fun h => hne (List.reverse_eq_nil_iff.1 h), fun c hc => ?_⟩
    have hc := List.mem_reverse.1 hc
    exact ⟨hb c hc, .inl hc⟩
  induction text with
  | nil =>
      intro begun w hb hw
      rcases mem_cons hw with hw | hw
      · exact ended hb hw
      · cases hw
  | cons c text ih =>
      intro begun w hb hw
      rw [wordsFrom] at hw
      split at hw
      · rcases mem_cons hw with hw | hw
        · exact ended hb hw
        · obtain ⟨hne, hall⟩ := ih (fun _ h => absurd h List.not_mem_nil) hw
          refine ⟨hne, fun d hd => ⟨(hall d hd).1, .inr (List.mem_cons_of_mem _ ?_)⟩⟩
          exact (hall d hd).2.resolve_left List.not_mem_nil
      · rename_i hc
        have hb' : ∀ d ∈ c :: begun, isBlank d = false :=
          List.forall_mem_cons.2 ⟨Bool.eq_false_iff.2 hc, hb⟩
        obtain ⟨hne, hall⟩ := ih hb' hw
        refine ⟨hne, fun d hd => ⟨(hall d hd).1, ?_⟩⟩
        rcases (hall d hd).2 with h | h
        · rcases List.mem_cons.1 h with rfl | h
          · exact .inr List.mem_cons_self
          · exact .inl h
        · exact .inr (List.mem_cons_of_mem _ h)

/-- **A word has a character and no blank.** Its characters are those of the text. -/
theorem mem_words {text w : List Char} (h : w ∈ words text) :
    w ≠ [] ∧ ∀ c ∈ w, isBlank c = false ∧ c ∈ text := by
  obtain ⟨hne, hall⟩ := mem_wordsFrom (fun _ h => absurd h List.not_mem_nil) h
  exact ⟨hne, fun c hc => ⟨(hall c hc).1, (hall c hc).2.resolve_left List.not_mem_nil⟩⟩

theorem wordsFrom_append {w : List Char} (h : ∀ c ∈ w, isBlank c = false) (begun rest : List Char) :
    wordsFrom begun (w ++ rest) = wordsFrom (w.reverse ++ begun) rest := by
  induction w generalizing begun with
  | nil => rfl
  | cons c w ih =>
      obtain ⟨hc, hw⟩ := List.forall_mem_cons.1 h
      rw [List.cons_append, wordsFrom, hc, if_neg Bool.false_ne_true, ih hw, List.reverse_cons,
        List.append_assoc, List.singleton_append]

/-- **A word in front of a blank is the first word**; the others are those behind the blank. -/
theorem words_append_blank {w : List Char} {b : Char} (hne : w ≠ [])
    (h : ∀ c ∈ w, isBlank c = false) (hb : isBlank b = true) (rest : List Char) :
    words (w ++ b :: rest) = w :: words rest := by
  have hrev : w.reverse ≠ [] := fun he => hne (List.reverse_eq_nil_iff.1 he)
  rw [words, wordsFrom_append h, List.append_nil, wordsFrom, if_pos hb, cons_of_ne_nil hrev,
    List.reverse_reverse]
  rfl

/-- **Characters that are no blanks are one word.** -/
theorem words_of_forall {w : List Char} (hne : w ≠ []) (h : ∀ c ∈ w, isBlank c = false) :
    words w = [w] := by
  have hrev : w.reverse ≠ [] := fun he => hne (List.reverse_eq_nil_iff.1 he)
  have happ := wordsFrom_append h [] []
  rw [List.append_nil, List.append_nil] at happ
  rw [words, happ, wordsFrom, cons_of_ne_nil hrev, List.reverse_reverse]

theorem wordsFrom_append_blank {b : Char} (hb : isBlank b = true) (begun text : List Char) :
    wordsFrom begun (text ++ [b]) = wordsFrom begun text := by
  induction text generalizing begun with
  | nil =>
      show (if isBlank b then cons begun (cons [] []) else _) = cons begun []
      rw [if_pos hb]
      rfl
  | cons c text ih => simp only [List.cons_append, wordsFrom, ih]

/-- **A blank at the end makes no difference.** -/
theorem words_append_of_isBlank {b : Char} (hb : isBlank b = true) (text : List Char) :
    words (text ++ [b]) = words text := wordsFrom_append_blank hb [] text

end Blank

/-! ## 2. Lines -/

namespace Line

variable {α : Type} [DecidableEq α] {lf cr : α}

theorem splitFrom_append {l : List α} (h : lf ∉ l) (begun rest : List α) :
    splitFrom lf cr begun (l ++ rest) = splitFrom lf cr (l.reverse ++ begun) rest := by
  induction l generalizing begun with
  | nil => rfl
  | cons c l ih =>
      obtain ⟨hc, hl⟩ := List.ne_and_not_mem_of_not_mem_cons h
      rw [List.cons_append, splitFrom, if_neg (Ne.symm hc), ih hl, List.reverse_cons,
        List.append_assoc, List.singleton_append]

/-- A line without a carriage return is closed as it stands. -/
theorem close_of_not_mem {begun : List α} (h : cr ∉ begun) : close cr begun = begun.reverse := by
  cases begun with
  | nil => rfl
  | cons c begun =>
      obtain ⟨hc, -⟩ := List.ne_and_not_mem_of_not_mem_cons h
      exact if_neg (Ne.symm hc)

/-- **Lines that are written each with its end are read as they were**, as long as they have no line
    end of their own. -/
theorem split_lines {lines : List (List α)} (h : ∀ l ∈ lines, lf ∉ l ∧ cr ∉ l) :
    split lf cr (lines.flatMap (· ++ [lf])) = lines := by
  unfold split
  induction lines with
  | nil => rfl
  | cons l lines ih =>
      obtain ⟨hl, hlines⟩ := List.forall_mem_cons.1 h
      have hcr : cr ∉ l.reverse := fun hm => hl.2 (List.mem_reverse.1 hm)
      rw [List.flatMap_cons, List.append_assoc, splitFrom_append hl.1, List.append_nil,
        List.singleton_append, splitFrom, if_pos rfl, ih hlines, close_of_not_mem hcr,
        List.reverse_reverse]

theorem splitFrom_append_ended (a b begun : List α) : splitFrom lf cr begun (a ++ lf :: b) =
    splitFrom lf cr begun (a ++ [lf]) ++ split lf cr b := by
  induction a generalizing begun with
  | nil =>
      rw [List.nil_append, List.nil_append, splitFrom, if_pos rfl, splitFrom, if_pos rfl]
      rfl
  | cons c a ih =>
      rw [List.cons_append, List.cons_append, splitFrom, splitFrom]
      split
      · rw [ih, List.cons_append]
      · exact ih _

/-- **The lines of texts put together are the lines of the texts**, if each but the last one is
    ended. -/
theorem split_append_ended (a b : List α) :
    split lf cr (a ++ lf :: b) = split lf cr (a ++ [lf]) ++ split lf cr b :=
  splitFrom_append_ended a b []

/-- A line that ends with a character is closed without it if that is a carriage return. -/
theorem close_concat (cr : α) (l : List α) (c : α) :
    close cr (l ++ [c]).reverse = if c = cr then l else l ++ [c] := by
  rw [List.reverse_append, List.reverse_singleton, List.singleton_append, close, List.reverse_cons,
    List.reverse_reverse]

/-- A line is closed as it stands, or without the carriage return at its end. -/
theorem close_reverse (cr : α) (l : List α) :
    close cr l.reverse = l ∨ l = close cr l.reverse ++ [cr] := by
  rcases List.eq_nil_or_concat l with rfl | ⟨l, c, rfl⟩
  · exact .inl rfl
  · rw [List.concat_eq_append, close_concat]
    split
    · rename_i hc
      rw [hc]
      exact .inr rfl
    · exact .inl rfl

/-- The lines of pieces without line feeds, with line feeds between them: each piece is closed but
    the last, which is a line only if it is not empty. -/
theorem split_intercalate (cr : α) {pieces : List (List α)} {last : List α}
    (h : ∀ l ∈ pieces, lf ∉ l) (hlast : lf ∉ last) :
    split lf cr ([lf].intercalate (pieces ++ [last])) =
      pieces.map (fun l => close cr l.reverse) ++ if last = [] then [] else [last] := by
  unfold split
  induction pieces with
  | nil =>
      have happ : splitFrom lf cr [] (last ++ []) = splitFrom lf cr (last.reverse ++ []) [] :=
        splitFrom_append hlast [] []
      rw [List.append_nil, List.append_nil] at happ
      rw [List.nil_append, List.intercalate_singleton, happ, splitFrom]
      simp only [List.isEmpty_iff, List.reverse_eq_nil_iff, List.reverse_reverse, List.map_nil,
        List.nil_append]
  | cons l pieces ih =>
      obtain ⟨hl, hpieces⟩ := List.forall_mem_cons.1 h
      obtain ⟨l', rest, hrest⟩ : ∃ l' rest, pieces ++ [last] = l' :: rest :=
        List.exists_cons_of_ne_nil (List.append_ne_nil_of_right_ne_nil _ (List.cons_ne_nil _ _))
      have ih := ih hpieces
      rw [hrest] at ih
      rw [List.cons_append, hrest, List.intercalate_cons_cons, List.append_assoc,
        splitFrom_append hl, List.append_nil, List.singleton_append, splitFrom, if_pos rfl, ih,
        List.map_cons, List.cons_append]

end Line

end ClassAccess
