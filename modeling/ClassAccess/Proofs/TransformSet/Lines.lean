import ClassAccess.Proofs.Text.Files
import ClassAccess.Proofs.TransformSet.Lookup
import ClassAccess.TransformSet.Directive

/-!
# Texts of directives put together

A text of directives comes to a set line by line. All that matters about it is which requests its
lines make.

* `DirectiveLine.requests`, `readLines_eq_askAll` -- **reading lines is asking for their requests**;
* `lineRequests_close` -- a carriage return at the end of a line makes no difference;
* `textRequests_join`, `textRequests_intercalate` -- the requests of texts that are put together,
  and of pieces put together with line feeds;
* `ofTexts_perm` -- the set of several texts does not depend on their order;
* `readBytes_of_text`, `readBytes_of_not_text` -- a file is read as its text, if it is UTF-8;
* `readText_merges` -- **reading is merging**: lines may come in any order and more than once, and
  texts one after the other or as one;
* `readBytes_agrees` -- **a file is read as its text is, up to the first line that is no text**.
-/

namespace ClassAccess

/-! ## 1. Lines -/

/-- The request that a line makes, if it makes one. -/
def DirectiveLine.requests : DirectiveLine → List (String × Target × Transform)
  | directive token className target => [(className, target, Transform.ofToken token)]
  | blank | misfit _ => []

namespace TransformSet

/-- The requests that the line with these characters makes. -/
def lineRequests (line : List Char) : List (String × Target × Transform) :=
  (DirectiveLine.ofChars line).requests

theorem apply_eq_askAll (s : TransformSet) (line : DirectiveLine) :
    line.apply s = s.askAll line.requests := by
  cases line <;> rfl

/-- **Reading lines is asking for what they request**, one after the other. -/
theorem readLines_eq_askAll (s : TransformSet) (lines : List (List Char)) :
    s.readLines lines = s.askAll (lines.flatMap lineRequests) := by
  induction lines generalizing s with
  | nil => rfl
  | cons line lines ih =>
      rw [List.flatMap_cons, askAll_append, ← ih, lineRequests, ← apply_eq_askAll]
      rfl

/-- A carriage return at the end of a line belongs to a comment or is a blank. -/
theorem lineRequests_append_return (line : List Char) :
    lineRequests (line ++ ['\r']) = lineRequests line := by
  have hwords : Blank.words ((line ++ ['\r']).takeWhile (· ≠ '#')) =
      Blank.words (line.takeWhile (· ≠ '#')) := by
    rw [List.takeWhile_append]
    split
    · rename_i hall
      rw [(List.takeWhile_prefix _).eq_of_length hall]
      exact Blank.words_append_of_isBlank (by decide) line
    · rfl
  unfold lineRequests DirectiveLine.ofChars
  rw [hwords]

theorem lineRequests_close (line : List Char) :
    lineRequests (Line.close '\r' line.reverse) = lineRequests line := by
  rcases Line.close_reverse '\r' line with h | h
  · rw [h]
  · rw [← lineRequests_append_return, ← h]

/-! ## 2. Texts -/

/-- The requests that a text makes. -/
def textRequests (text : String) : List (String × Target × Transform) :=
  (Line.ofText text.toList).flatMap lineRequests

theorem readText_eq_askAll (s : TransformSet) (text : String) :
    s.readText text = s.askAll (textRequests text) := readLines_eq_askAll s _

/-- A text that is ended makes its requests whatever comes behind it. -/
theorem textRequests_append_ended (text rest : String) :
    textRequests (text ++ "\n" ++ rest) = textRequests (text ++ "\n") ++ textRequests rest := by
  unfold textRequests Line.ofText
  rw [← List.flatMap_append, String.toList_append, String.toList_append,
    show "\n".toList = ['\n'] from rfl, ← Line.split_append_ended, List.append_assoc,
    List.singleton_append]

/-- **The requests of texts put together are those of the texts**, if each but the last one ends
    with a line feed. -/
theorem textRequests_join {texts : List String}
    (h : ∀ text ∈ texts.dropLast, ∃ lines, text = lines ++ "\n") :
    textRequests (String.join texts) = texts.flatMap textRequests := by
  induction texts with
  | nil => rfl
  | cons text texts ih =>
      rw [String.join_cons, List.flatMap_cons]
      cases texts with
      | nil => rw [String.join_nil, String.append_empty, List.flatMap_nil, List.append_nil]
      | cons text' texts =>
          obtain ⟨⟨lines, rfl⟩, hrest⟩ := List.forall_mem_cons.1 h
          rw [textRequests_append_ended, ih hrest]

/-- **The requests of pieces put together with line feeds are those of the pieces.** -/
theorem textRequests_intercalate {pieces : List String} (h : ∀ p ∈ pieces, '\n' ∉ p.toList) :
    textRequests ("\n".intercalate pieces) =
      pieces.flatMap fun p => lineRequests p.toList := by
  rcases List.eq_nil_or_concat pieces with rfl | ⟨pieces, last, rfl⟩
  · rfl
  rw [List.concat_eq_append] at h ⊢
  have hpieces : ∀ l ∈ pieces.map String.toList, '\n' ∉ l := by
    intro l hl
    obtain ⟨p, hp, rfl⟩ := List.mem_map.1 hl
    exact h p (List.mem_append_left _ hp)
  have hlast : '\n' ∉ last.toList := h last (List.mem_append_right _ (List.mem_singleton_self _))
  have hblank : (if last.toList = [] then [] else [last.toList]).flatMap lineRequests =
      lineRequests last.toList := by
    split
    · rename_i hnil
      rw [hnil]
      rfl
    · rw [List.flatMap_cons, List.flatMap_nil, List.append_nil]
  have hsplit := Line.split_intercalate '\r' hpieces hlast
  unfold textRequests Line.ofText
  rw [String.toList_intercalate, List.map_append, List.map_cons, List.map_nil,
    show "\n".toList = ['\n'] from rfl, hsplit, List.flatMap_append, hblank, List.flatMap_append,
    List.flatMap_map, List.flatMap_map, List.flatMap_cons, List.flatMap_nil, List.append_nil]
  simp only [lineRequests_close]

/-! ## 3. Reading -/

/-- **Reading a text is merging the set that it is read as.** -/
theorem readText_eq_merge (s : TransformSet) (text : String) :
    s.readText text = s.merge (ofText text) := by
  rw [merge_eq_askAll, ofText, readText_eq_askAll, readText_eq_askAll, askAll_stored]

theorem foldl_readText (s : TransformSet) (texts : List String) :
    texts.foldl readText s = s.askAll (texts.flatMap textRequests) := by
  induction texts generalizing s with
  | nil => rfl
  | cons t texts ih =>
      rw [List.foldl_cons, ih, List.flatMap_cons, askAll_append, readText_eq_askAll]

/-- The sets that some texts are read as, merged one after the other. -/
def ofTexts (texts : List String) : TransformSet := (texts.map ofText).foldl merge {}

theorem foldl_readText_eq_ofTexts (texts : List String) :
    texts.foldl readText {} = ofTexts texts := by
  have hread : readText = fun s text => s.merge (ofText text) :=
    funext₂ readText_eq_merge
  rw [ofTexts, List.foldl_map, hread]

/-- **The order of the texts does not matter.** -/
theorem ofTexts_perm {texts texts' : List String} (h : texts'.Perm texts) :
    ofTexts texts' = ofTexts texts := by
  rw [← foldl_readText_eq_ofTexts, ← foldl_readText_eq_ofTexts, foldl_readText, foldl_readText]
  exact askAll_congr {} fun r => (h.flatMap_right _).mem_iff

/-- A file of UTF-8 is read as its text. -/
theorem readBytes_of_text (s : TransformSet) {data : Bytes} {text : String}
    (h : Utf8.decode? data = some text) : s.readBytes data = (s.readText text, none) := by
  rw [Utf8.decode?_eq_some_iff.1 h, readBytes, Utf8.lines_encode]
  rfl

/-- A file that is not UTF-8 is not read to its end. -/
theorem readBytes_of_not_text (s : TransformSet) {data : Bytes} (h : Utf8.decode? data = none) :
    (s.readBytes data).2 = some .notText := Utf8.lines_fault h

/-- Texts that make the same requests are read as the same set. -/
theorem ofText_congr {text text' : String}
    (h : ∀ r, r ∈ textRequests text ↔ r ∈ textRequests text') : ofText text = ofText text' := by
  rw [ofText, ofText, readText_eq_askAll, readText_eq_askAll]
  exact askAll_congr {} h

/-- **Reading is merging**, entry for entry of what is stored. What a text adds to a set is the set
    that it is read as. That set depends on which lines there are, not on their order or number, be
    they told as they are read or as they stand between line feeds. Texts may be read one after the
    other, in whatever order, or as one text, if each but the last one ends with a line feed. -/
theorem readText_merges :
    (∀ (s : TransformSet) (text : String), s.readText text = s.merge (ofText text)) ∧
      (∀ text text' : String,
        (∀ line, line ∈ Line.ofText text.toList ↔ line ∈ Line.ofText text'.toList) →
          ofText text = ofText text') ∧
      (∀ lines lines' : List String, (∀ line ∈ lines, '\n' ∉ line.toList) →
        (∀ line, line ∈ lines ↔ line ∈ lines') →
          ofText ("\n".intercalate lines) = ofText ("\n".intercalate lines')) ∧
      ∀ (s : TransformSet) (texts texts' : List String), texts'.Perm texts →
        (∀ text ∈ texts.dropLast, ∃ lines, text = lines ++ "\n") →
          texts'.foldl readText s = s.readText (String.join texts) := by
  refine ⟨readText_eq_merge, fun text text' h => ofText_congr fun r => ?_,
    fun lines lines' hlines h => ofText_congr fun r => ?_, fun s texts texts' hperm hended => ?_⟩
  · simp only [textRequests, List.mem_flatMap, h]
  · rw [textRequests_intercalate hlines,
      textRequests_intercalate fun line hline => hlines line ((h line).2 hline)]
    simp only [List.mem_flatMap, h]
  · rw [readText_eq_askAll, textRequests_join hended, foldl_readText]
    exact askAll_congr s fun r => (hperm.flatMap_right _).mem_iff

/-- Two texts, of which the second one has a line twice and one without effect, read the other way
    round. -/
theorem readText_merges_twice :
    ["# none\nprivate A f\nprivate A f", "public A m()V\n"].foldl readText {} =
        ofText "private A f\n# none\npublic A m()V" ∧
      (ofText "private A f\n# none\npublic A m()V").asked "A" (.field "f") =
        ⟨.privateAccess, .unchanged⟩ := by
  obtain ⟨-, -, hlines, htexts⟩ := readText_merges
  refine ⟨?_, by decide +kernel⟩
  have hread := htexts {} ["public A m()V\n", "# none\nprivate A f\nprivate A f"]
    ["# none\nprivate A f\nprivate A f", "public A m()V\n"] (List.Perm.swap _ _ _)
    fun text h => ⟨"public A m()V", List.mem_singleton.1 h⟩
  have hsame := hlines ["public A m()V", "# none", "private A f", "private A f"]
    ["private A f", "# none", "public A m()V"] (by decide +kernel) fun line => by grind
  exact hread.trans hsame

/-! ## 4. Files -/

/-- **A file is read as its text is.** If it is not UTF-8, then the lines in front of the first one
    that is not are read as their text is, and neither that line nor any later one. The lines are
    those of the file as they stand in it, each with its line feed. -/
theorem readBytes_agrees (s : TransformSet) (data : Bytes) :
    (∀ text, Utf8.decode? data = some text → s.readBytes data = (s.readText text, none)) ∧
      (Utf8.decode? data = none →
        ∃ before line after text, Line.pieces 0x0A data = before ++ line :: after ∧
          (∀ l ∈ before, Utf8.isText l = true) ∧ Utf8.isText line = false ∧
          Utf8.decode? before.flatten = some text ∧
          s.readBytes data = (s.readText text, some .notText)) := by
  refine ⟨fun text h => readBytes_of_text s h, fun h => ?_⟩
  obtain ⟨before, line, after, hpieces, hbefore, hline, hfront⟩ := Utf8.exists_first_not_text h
  obtain ⟨text, htext, hlines⟩ := Utf8.lines_of_front data
  have hread : (s.readBytes data).1 = s.readText text := by
    rw [readText, ← hlines]
    rfl
  refine ⟨before, line, after, text, hpieces, hbefore, hline, hfront ▸ htext, ?_⟩
  rw [← hread, ← readBytes_of_not_text s h]

/-- A file whose second line ends with a carriage return and a line feed, and whose third line
    breaks off inside a character. -/
def brokenFile : Bytes :=
  Utf8.encode "public A\nprivate A f\r\npublic B" ++ 0xC3 :: Utf8.encode "\npublic C"

theorem readBytes_agrees_brokenFile :
    readBytes {} brokenFile = (ofText "public A\nprivate A f\r\n", some .notText) ∧
      (readBytes {} brokenFile).1.asked "A" (.field "f") = ⟨.privateAccess, .unchanged⟩ ∧
      (readBytes {} brokenFile).1.asked "C" .self = .none := by
  obtain ⟨-, hbroken⟩ := readBytes_agrees {} brokenFile
  obtain ⟨before, line, after, text, hpieces, hbefore, hline, htext, hread⟩ :=
    hbroken (by decide +kernel)
  have hfront : Utf8.front brokenFile = before.flatten := by
    rw [Utf8.front, hpieces, List.takeWhile_append_of_pos hbefore,
      List.takeWhile_cons_of_neg (Bool.eq_false_iff.1 hline), List.append_nil]
  have hshown : Utf8.decode? (Utf8.front brokenFile) = some "public A\nprivate A f\r\n" := by
    decide +kernel
  rw [← hfront, hshown] at htext
  cases htext
  rw [hread]
  exact ⟨rfl, by decide +kernel, by decide +kernel⟩

end TransformSet

end ClassAccess
