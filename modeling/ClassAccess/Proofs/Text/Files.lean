import ClassAccess.Proofs.Text.Utf8
import Mathlib.Data.List.TakeWhile

/-!
# Files read up to a line that is no text

A file may hold lines of UTF-8 and then one that is not. What is found in it are the lines of the
text in front of that one, wherever carriage returns stand.

* `Line.induction_lines`, `pieces_append_line`, `split_append_line` -- a sequence is its first line
  with the line feed, and the rest;
* `flatten_pieces` -- the lines with their line feeds make up the sequence;
* `exists_encodeAll_of_line` -- a line with its line feed is UTF-8 if the line is;
* `front`, `lines_of_front` -- **the lines that are found in a file are those of the text in front
  of the first line that is no text**;
* `exists_first_not_text` -- a file that is not UTF-8 has such a line.
-/

namespace ClassAccess

/-! ## 1. First lines -/

namespace Line

variable {α : Type} [DecidableEq α] {lf cr : α} {line : List α}

/-- What holds for a last line, and for a line with all that follows it, holds for every
    sequence. -/
theorem induction_lines (lf : α) {motive : List α → Prop} (nil : motive [])
    (last : ∀ line, line ≠ [] → lf ∉ line → motive line)
    (ended : ∀ line rest, lf ∉ line → motive rest → motive (line ++ lf :: rest))
    (text : List α) : motive text := by
  induction hn : text.length using Nat.strongRecOn generalizing text with
  | ind n ih =>
      by_cases hlf : lf ∈ text
      · obtain ⟨line, rest, htext, hline⟩ := List.eq_append_cons_of_mem hlf
        have hlt : rest.length < n := by
          rw [← hn, htext, List.length_append, List.length_cons]
          omega
        rw [htext]
        exact ended line rest hline (ih _ hlt rest rfl)
      · by_cases hnil : text = []
        · rw [hnil]
          exact nil
        · exact last text hnil hlf

theorem pieces_of_not_mem (hne : line ≠ []) (h : lf ∉ line) : pieces lf line = [line] := by
  induction line with
  | nil => exact absurd rfl hne
  | cons c line ih =>
      obtain ⟨hc, hline⟩ := List.ne_and_not_mem_of_not_mem_cons h
      rw [pieces, if_neg (Ne.symm hc)]
      cases line with
      | nil => rfl
      | cons d line => rw [ih (List.cons_ne_nil _ _) hline]

/-- A line goes up to its line feed. -/
theorem pieces_append_line (h : lf ∉ line) (rest : List α) :
    pieces lf (line ++ lf :: rest) = (line ++ [lf]) :: pieces lf rest := by
  induction line with
  | nil => rw [List.nil_append, pieces, if_pos rfl, List.nil_append]
  | cons c line ih =>
      obtain ⟨hc, hline⟩ := List.ne_and_not_mem_of_not_mem_cons h
      rw [List.cons_append, pieces, if_neg (Ne.symm hc), ih hline, List.cons_append]

theorem flatten_pieces (lf : α) (text : List α) : (pieces lf text).flatten = text := by
  induction text using induction_lines lf with
  | nil => rfl
  | last line hne h => rw [pieces_of_not_mem hne h, List.flatten_singleton]
  | ended line rest h ih =>
      rw [pieces_append_line h, List.flatten_cons, ih, List.append_assoc, List.singleton_append]

theorem split_append_line (h : lf ∉ line) (rest : List α) :
    split lf cr (line ++ lf :: rest) = close cr line.reverse :: split lf cr rest := by
  rw [split, splitFrom_append h, List.append_nil, splitFrom, if_pos rfl]
  rfl

theorem split_of_not_mem (hne : line ≠ []) (h : lf ∉ line) : split lf cr line = [line] := by
  have happ : splitFrom lf cr [] (line ++ []) = splitFrom lf cr (line.reverse ++ []) [] :=
    splitFrom_append h [] []
  rw [List.append_nil, List.append_nil] at happ
  rw [split, happ, splitFrom, List.reverse_reverse, List.isEmpty_reverse, if_neg]
  rwa [List.isEmpty_iff]

end Line

/-! ## 2. Lines that are text -/

namespace Utf8

theorem decode?_encodeAll (text : List Char) :
    decode? (encodeAll text) = some (String.ofList text) := by
  rw [decode?_eq_some_iff, encode_eq, String.toList_ofList]

theorem isText_iff {data : Bytes} : isText data = true ↔ ∃ text, data = encodeAll text := by
  rw [isText, Option.isSome_iff_exists]
  constructor
  · intro ⟨text, h⟩
    exact ⟨text.toList, (decode?_eq_some_iff.1 h).trans (encode_eq text)⟩
  · intro ⟨text, h⟩
    exact ⟨String.ofList text, h ▸ decode?_encodeAll text⟩

theorem not_mem_of_encodeAll {text : List Char} (h : 0x0A ∉ encodeAll text) : '\n' ∉ text :=
  fun hmem => h (List.mem_flatMap.2 ⟨'\n', hmem, List.mem_singleton_self _⟩)

/-- A line with its line feed is UTF-8 only if the line is. -/
theorem exists_encodeAll_of_line {line : Bytes} (h : isText (line ++ [0x0A]) = true) :
    ∃ text, line = encodeAll text := by
  obtain ⟨text, htext⟩ := isText_iff.1 h
  rcases List.eq_nil_or_concat text with rfl | ⟨text, c, rfl⟩
  · exact absurd htext (List.append_ne_nil_of_right_ne_nil _ (List.cons_ne_nil _ _))
  rw [List.concat_eq_append, encodeAll_append, encodeAll_singleton] at htext
  obtain ⟨bytes, b, hc⟩ := (List.eq_nil_or_concat (String.utf8EncodeChar c)).resolve_left
    String.utf8EncodeChar_ne_nil
  rw [List.concat_eq_append] at hc
  have hb : b = 0x0A := by
    rw [hc, ← List.append_assoc] at htext
    exact (List.singleton_inj.1 (List.append_inj' htext rfl).2).symm
  have hmem : 0x0A ∈ String.utf8EncodeChar c := by
    rw [hc, hb]
    exact List.mem_append_right _ (List.mem_singleton_self _)
  rw [eq_lf_of_mem hmem, encodeChar_lf] at htext
  exact ⟨text, (List.append_inj' htext rfl).1⟩

/-- A line that is no text is none without its carriage return either. -/
theorem decode?_close_of_not_text {line : Bytes} (h : ¬isText (line ++ [0x0A]) = true) :
    decode? (Line.close 0x0D line.reverse) = none := by
  refine Option.not_isSome_iff_eq_none.1 fun hsome => h (isText_iff.2 ?_)
  obtain ⟨text, htext⟩ := isText_iff.1 hsome
  rcases Line.close_reverse 0x0D line with hline | hline
  · refine ⟨text ++ ['\n'], ?_⟩
    rw [encodeAll_append, ← htext, hline]
    rfl
  · refine ⟨text ++ ['\r', '\n'], ?_⟩
    rw [encodeAll_append, ← htext, hline, Line.close_concat, if_pos rfl, List.append_assoc]
    rfl

/-! ## 3. Files -/

/-- The lines of a file in front of the first one that is no text, as they stand in the file. -/
def front (data : Bytes) : Bytes := ((Line.pieces 0x0A data).takeWhile isText).flatten

theorem decodeAll_cons_encodeAll (text : List Char) (rest : List Bytes) :
    decodeAll (encodeAll text :: rest) = (text :: (decodeAll rest).1, (decodeAll rest).2) := by
  rw [decodeAll, decode?_encodeAll]
  exact congrArg (fun l => (l :: _, _)) String.toList_ofList

theorem decodeAll_cons_of_none {line : Bytes} (h : decode? line = none) (rest : List Bytes) :
    decodeAll (line :: rest) = ([], some .notText) := by
  rw [decodeAll, h]

/-- The lines of a file whose first line is text. -/
theorem lines_append_text {text : List Char} (h : 0x0A ∉ encodeAll text) (rest : Bytes) :
    lines (encodeAll text ++ 0x0A :: rest) =
      (Line.close '\r' text.reverse :: (lines rest).1, (lines rest).2) := by
  have hclose := close_encodeAll text.reverse
  rw [List.reverse_reverse] at hclose
  rw [lines, Line.split_append_line h, hclose, decodeAll_cons_encodeAll]
  rfl

/-- The lines of a file whose first line is no text. -/
theorem lines_append_not_text {line : Bytes} (h : 0x0A ∉ line)
    (hline : ¬isText (line ++ [0x0A]) = true) (rest : Bytes) :
    lines (line ++ 0x0A :: rest) = ([], some .notText) := by
  rw [lines, Line.split_append_line h, decodeAll_cons_of_none (decode?_close_of_not_text hline)]

/-- **The lines that are found in a file are those of the text in front of the first line that is no
    text.** The induction cuts off one line after the other, up to that one. -/
theorem lines_of_front (data : Bytes) :
    ∃ text, decode? (front data) = some text ∧ (lines data).1 = Line.ofText text.toList := by
  suffices h : ∃ text, front data = encodeAll text ∧ (lines data).1 = Line.ofText text by
    obtain ⟨text, hfront, hlines⟩ := h
    refine ⟨String.ofList text, hfront ▸ decode?_encodeAll text, ?_⟩
    rw [String.toList_ofList]
    exact hlines
  induction data using Line.induction_lines (0x0A : UInt8) with
  | nil => exact ⟨[], rfl, rfl⟩
  | last line hne h =>
      by_cases hline : isText line = true
      · obtain ⟨text, htext⟩ := isText_iff.1 hline
        refine ⟨text, ?_, ?_⟩
        · rw [front, Line.pieces_of_not_mem hne h, List.takeWhile_cons_of_pos hline,
            List.takeWhile_nil, List.flatten_singleton, htext]
        · have hlines := lines_encode (String.ofList text)
          rw [encode_eq, String.toList_ofList, ← htext] at hlines
          rw [hlines]
      · refine ⟨[], ?_, ?_⟩
        · rw [front, Line.pieces_of_not_mem hne h, List.takeWhile_cons_of_neg hline]
          rfl
        · have hnone : decode? line = none := Option.not_isSome_iff_eq_none.1 hline
          rw [lines, Line.split_of_not_mem hne h, decodeAll_cons_of_none hnone]
          rfl
  | ended line rest h ih =>
      by_cases hline : isText (line ++ [0x0A]) = true
      · obtain ⟨first, rfl⟩ := exists_encodeAll_of_line hline
        obtain ⟨text, hfront, hlines⟩ := ih
        refine ⟨first ++ '\n' :: text, ?_, ?_⟩
        · have hrest : ((Line.pieces 0x0A rest).takeWhile isText).flatten = encodeAll text := hfront
          rw [front, Line.pieces_append_line h, List.takeWhile_cons_of_pos hline,
            List.flatten_cons, hrest, encodeAll_append, encodeAll_cons, encodeChar_lf,
            List.append_assoc]
        · rw [lines_append_text h, hlines, Line.ofText, Line.ofText,
            Line.split_append_line (not_mem_of_encodeAll h)]
      · refine ⟨[], ?_, ?_⟩
        · rw [front, Line.pieces_append_line h, List.takeWhile_cons_of_neg hline]
          rfl
        · rw [lines_append_not_text h hline]
          rfl

/-- **A file that is not UTF-8 has a first line that is not**, and what stands in front of it is
    what is read of the file. -/
theorem exists_first_not_text {data : Bytes} (h : decode? data = none) :
    ∃ before line after, Line.pieces 0x0A data = before ++ line :: after ∧
      (∀ l ∈ before, isText l = true) ∧ isText line = false ∧ front data = before.flatten := by
  have hall := List.takeWhile_append_dropWhile (p := isText) (l := Line.pieces 0x0A data)
  have hhead := List.head?_dropWhile_not isText (Line.pieces 0x0A data)
  cases hrest : (Line.pieces 0x0A data).dropWhile isText with
  | nil =>
      obtain ⟨text, htext, -⟩ := lines_of_front data
      rw [hrest, List.append_nil] at hall
      rw [front, hall, Line.flatten_pieces, h] at htext
      cases htext
  | cons line after =>
      rw [hrest] at hall hhead
      exact ⟨_, line, after, hall.symm, fun l hl => List.mem_takeWhile_imp hl, by simpa using hhead,
        rfl⟩

end Utf8

end ClassAccess
