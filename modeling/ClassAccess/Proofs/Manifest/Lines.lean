import ClassAccess.Manifest.Section
import ClassAccess.Proofs.Text.Files
import Mathlib.Data.List.Induction
import Mathlib.Data.List.Nodup

/-!
# The lines of a main section

A main section is read line by line, and goes up to the first line that is empty once it is trimmed.

* `trimmed` -- a line without the carriage returns that do not count, of which there are two at
  most;
* `linesOf_append_line` -- **the lines of a text are its first line and the lines behind it**,
  unless the section ends there;
* `splitAttribute?_eq_some_iff`, `splitAttribute?_eq_none_iff` -- a line is cut **at the first colon
  that a space follows**, and only there;
* `ofChars_eq_entry_iff`, `ofChars_misfit` -- what a line is;
* `get?_ofList`, `entries_ofList_perm` -- of one name the last value counts, and entries whose names
  are different all stay.
-/

namespace ClassAccess

/-! ## 1. Names that occur several times -/

namespace Listing

variable {κ ν : Type} [Ord κ]

theorem ofList_concat [Std.TransOrd κ] (entries : List (κ × ν)) (e : κ × ν) :
    ofList (entries ++ [e]) = (ofList entries).insert e.1 e.2 := List.foldl_append

/-- **Of the entries with one key the last one counts.** -/
theorem get?_ofList [Std.TransOrd κ] (entries : List (κ × ν)) (k : κ) :
    (ofList entries).get? k = find? k entries.reverse := by
  induction entries using List.reverseRecOn with
  | nil => rfl
  | append_singleton entries e ih =>
      rw [ofList_concat, insert, get?_update, ih, List.reverse_append, List.reverse_singleton,
        List.singleton_append, find?]

/-- Of entries with different keys each is found. -/
theorem find?_eq_some_of_nodup [Std.LawfulEqOrd κ] {k : κ} {v : ν} {entries : List (κ × ν)}
    (h : (entries.map Prod.fst).Nodup) : find? k entries = some v ↔ (k, v) ∈ entries := by
  refine ⟨mem_of_find?, fun hmem => ?_⟩
  induction entries with
  | nil => cases hmem
  | cons e entries ih =>
      obtain ⟨he, hentries⟩ := List.nodup_cons.1 h
      rw [find?]
      split
      · rename_i hk
        have hk : k = e.1 := Std.LawfulEqCmp.eq_of_compare hk
        rcases List.mem_cons.1 hmem with rfl | hmem
        · rfl
        · exact absurd (hk ▸ List.mem_map_of_mem hmem) he
      · rename_i hk
        rcases List.mem_cons.1 hmem with rfl | hmem
        · exact absurd Std.ReflCmp.compare_self hk
        · exact ih hentries hmem

/-- The keys of a listing are different, and so are its entries. -/
theorem nodup_entries [Std.TransOrd κ] (l : Listing κ ν) : l.entries.Nodup := by
  refine l.ascending.imp fun {a b} hlt heq => ?_
  subst heq
  exact absurd (Std.ReflCmp.compare_self.symm.trans hlt) (by decide)

/-- **A listing of entries with different keys has these entries**, in its own order. -/
theorem entries_ofList_perm [Std.TransOrd κ] [Std.LawfulEqOrd κ] {entries : List (κ × ν)}
    (h : (entries.map Prod.fst).Nodup) : (ofList entries).entries.Perm entries := by
  refine (List.perm_ext_iff_of_nodup (nodup_entries _) (List.Nodup.of_map _ h)).2 fun e => ?_
  have hreverse : (entries.reverse.map Prod.fst).Nodup := by
    rw [List.map_reverse, List.nodup_reverse]
    exact h
  rw [mem_entries_iff, get?_ofList, find?_eq_some_of_nodup hreverse, List.mem_reverse]

end Listing

namespace Manifest

variable {line name value : List Char}

/-! ## 2. Trimming -/

/-- What is left of a line that a line feed ends: a carriage return belongs to the end, and one more
    is dropped. -/
def trimmed (line : List Char) : List Char := stripReturn (stripReturn line)

theorem stripReturn_append_cons {c : Char} (hc : c ≠ '\r') (x y : List Char) :
    stripReturn (x ++ c :: y) = x ++ c :: stripReturn y := by
  unfold stripReturn
  rcases List.eq_nil_or_concat y with rfl | ⟨y, d, rfl⟩
  · rw [Line.close_concat, if_neg hc]
    rfl
  · rw [List.concat_eq_append, ← List.cons_append, ← List.append_assoc, Line.close_concat,
      Line.close_concat]
    split
    · rfl
    · rw [List.append_assoc, List.cons_append]

/-- Only what stands at the end of a line is dropped. -/
theorem trimmed_append_cons {c : Char} (hc : c ≠ '\r') (x y : List Char) :
    trimmed (x ++ c :: y) = x ++ c :: trimmed y := by
  rw [trimmed, stripReturn_append_cons hc, stripReturn_append_cons hc]
  rfl

theorem stripReturn_of_not_mem (h : '\r' ∉ line) : stripReturn line = line := by
  have hreverse : '\r' ∉ line.reverse := fun hmem => h (List.mem_reverse.1 hmem)
  rw [stripReturn, Line.close_of_not_mem hreverse, List.reverse_reverse]

/-- A line without carriage returns stays as it is. -/
theorem trimmed_of_not_mem (h : '\r' ∉ line) : trimmed line = line := by
  rw [trimmed, stripReturn_of_not_mem h, stripReturn_of_not_mem h]

/-- So does one without carriage returns but for the one that belongs to the end. -/
theorem trimmed_concat_return (h : '\r' ∉ line) : trimmed (line ++ ['\r']) = line := by
  have hstrip : stripReturn (line ++ ['\r']) = line := by
    rw [stripReturn, Line.close_concat, if_pos rfl]
  rw [trimmed, hstrip, stripReturn_of_not_mem h]

/-! ## 3. One line after the other -/

/-- The lines of the main section of a text. -/
def linesOf (text : List Char) : List ManifestLine :=
  (((Line.ofText text).map stripReturn).takeWhile (!·.isEmpty)).map ManifestLine.ofChars

theorem lines_eq (text : String) : lines text = linesOf text.toList := rfl

theorem attributes_ofList (text : List Char) : attributes (String.ofList text) =
    (gather none (linesOf text)).map fun a => (String.ofList a.1, String.ofList a.2) := by
  rw [attributes, lines_eq, String.toList_ofList]

/-- **A section is its first line and the lines behind it**, unless that line is empty. -/
theorem linesOf_append_line (h : '\n' ∉ line) (rest : List Char) :
    linesOf (line ++ '\n' :: rest) =
      if trimmed line = [] then [] else .ofChars (trimmed line) :: linesOf rest := by
  have hlines : Line.ofText (line ++ '\n' :: rest) = stripReturn line :: Line.ofText rest :=
    Line.split_append_line h rest
  rw [linesOf, hlines, List.map_cons, ← trimmed]
  by_cases hempty : trimmed line = []
  · rw [if_pos hempty, hempty]
    rfl
  · have hline : (!(trimmed line).isEmpty) = true := by
      rwa [Bool.not_eq_true', List.isEmpty_eq_false_iff]
    rw [if_neg hempty, List.takeWhile_cons, hline]
    rfl

/-- A last line that no line feed ends. -/
theorem linesOf_of_not_mem (h : '\n' ∉ line) :
    linesOf line = if stripReturn line = [] then [] else [.ofChars (stripReturn line)] := by
  by_cases hnil : line = []
  · subst hnil
    rfl
  have hlines : Line.ofText line = [line] := Line.split_of_not_mem hnil h
  rw [linesOf, hlines, List.map_singleton]
  by_cases hempty : stripReturn line = []
  · rw [if_pos hempty, hempty]
    rfl
  · have hline : (!(stripReturn line).isEmpty) = true := by
      rwa [Bool.not_eq_true', List.isEmpty_eq_false_iff]
    rw [if_neg hempty, List.takeWhile_cons, hline]
    rfl

/-! ## 4. What a line is -/

open Section

theorem not_holdsColon_nil : ¬HoldsColon [] := by
  rintro ⟨before, after, h⟩
  cases before <;> cases h

/-- A text that begins with a colon and a space, or holds them behind its first character. -/
theorem holdsColon_cons {c : Char} {text : List Char} :
    HoldsColon (c :: text) ↔ (c = ':' ∧ text.head? = some ' ') ∨ HoldsColon text := by
  constructor
  · rintro ⟨before, after, h⟩
    cases before with
    | nil =>
        obtain ⟨rfl, rfl⟩ := List.cons.inj h
        exact .inl ⟨rfl, rfl⟩
    | cons d before => exact .inr ⟨before, after, (List.cons.inj h).2⟩
  · rintro (⟨rfl, htext⟩ | ⟨before, after, rfl⟩)
    · obtain ⟨after, rfl⟩ := List.head?_eq_some_iff.1 htext
      exact ⟨[], after, rfl⟩
    · exact ⟨c :: before, after, rfl⟩

/-- One step of cutting a line, where it does not begin with a colon and a space. -/
theorem splitAttribute?_cons {c : Char} {text : List Char}
    (h : ¬(c = ':' ∧ text.head? = some ' ')) : splitAttribute? (c :: text) =
      (splitAttribute? text).map fun a => (c :: a.1, a.2) := by
  rw [splitAttribute?]
  intro value hc htext
  exact h ⟨hc, htext ▸ rfl⟩

/-- **A line is cut at the first colon that a space follows.** -/
theorem splitAttribute?_append (h : ¬HoldsColon name) (value : List Char) :
    splitAttribute? (name ++ ':' :: ' ' :: value) = some (name, value) := by
  induction name with
  | nil => rfl
  | cons c name ih =>
      rw [holdsColon_cons, not_or] at h
      -- the colon behind the name is no space, so no cut arises where the two meet
      have hfirst : ¬(c = ':' ∧ (name ++ ':' :: ' ' :: value).head? = some ' ') := by
        rintro ⟨hc, hhead⟩
        cases name with
        | nil => cases hhead
        | cons d name => exact h.1 ⟨hc, hhead⟩
      rw [List.cons_append, splitAttribute?_cons hfirst, ih h.2]
      rfl

/-- Only there a line is cut. -/
theorem splitAttribute?_eq_some_iff {text : List Char} : splitAttribute? text = some (name, value) ↔
    text = name ++ ':' :: ' ' :: value ∧ ¬HoldsColon name := by
  refine ⟨fun h => ?_, fun ⟨htext, hname⟩ => htext ▸ splitAttribute?_append hname value⟩
  induction text generalizing name with
  | nil => cases h
  | cons c text ih =>
      by_cases hfirst : c = ':' ∧ text.head? = some ' '
      · obtain ⟨rfl, hhead⟩ := hfirst
        obtain ⟨rest, rfl⟩ := List.head?_eq_some_iff.1 hhead
        cases h
        exact ⟨rfl, not_holdsColon_nil⟩
      · rw [splitAttribute?_cons hfirst] at h
        obtain ⟨⟨front, rest⟩, hsplit, hpair⟩ := Option.map_eq_some_iff.1 h
        cases hpair
        obtain ⟨rfl, hfront⟩ := ih hsplit
        refine ⟨rfl, fun hcolon => (holdsColon_cons.1 hcolon).elim (fun hhead => ?_) hfront⟩
        exact hfirst ⟨hhead.1, List.mem_head?_append_of_mem_head? hhead.2⟩

/-- A line is cut only if it holds a colon that a space follows. -/
theorem splitAttribute?_eq_none_iff {text : List Char} :
    splitAttribute? text = none ↔ ¬HoldsColon text := by
  induction text with
  | nil => exact iff_of_true rfl not_holdsColon_nil
  | cons c text ih =>
      rw [holdsColon_cons]
      by_cases hfirst : c = ':' ∧ text.head? = some ' '
      · obtain ⟨rfl, hhead⟩ := hfirst
        obtain ⟨value, rfl⟩ := List.head?_eq_some_iff.1 hhead
        exact iff_of_false nofun fun hnot => hnot (.inl ⟨rfl, rfl⟩)
      · rw [splitAttribute?_cons hfirst, Option.map_eq_none_iff, ih, or_iff_right hfirst]

instance (text : List Char) : Decidable (HoldsColon text) :=
  decidable_of_iff (splitAttribute? text ≠ none)
    (by rw [ne_eq, splitAttribute?_eq_none_iff, not_not])

instance (text : List Char) : Decidable (Inline text) :=
  inferInstanceAs (Decidable (_ ∧ _))

instance : ∀ e : Entry, Decidable e.Legible
  | .pair .. => inferInstanceAs (Decidable (_ ∧ _))
  | .misfit .. => inferInstanceAs (Decidable (_ ∧ _))

/-- A line that does not start with a space is an attribute or a misfit. -/
theorem ofChars_of_head? (h : line.head? ≠ some ' ') : ManifestLine.ofChars line =
    match splitAttribute? line with
    | some (name, value) => .entry name value
    | none => .misfit line := by
  unfold ManifestLine.ofChars
  split
  · exact absurd rfl h
  · rfl

/-- **A line with a name, a colon and a space is an attribute.** -/
theorem ofChars_entry (hhead : name.head? ≠ some ' ') (hname : ¬HoldsColon name)
    (value : List Char) :
    ManifestLine.ofChars (name ++ ':' :: ' ' :: value) = .entry name value := by
  have hline : (name ++ ':' :: ' ' :: value).head? ≠ some ' ' := by
    cases name with
    | nil => exact nofun
    | cons c name => exact hhead
  rw [ofChars_of_head? hline, splitAttribute?_append hname]

/-- No other line is one. -/
theorem ofChars_eq_entry_iff : ManifestLine.ofChars line = .entry name value ↔
    line = name ++ ':' :: ' ' :: value ∧ name.head? ≠ some ' ' ∧ ¬HoldsColon name := by
  refine ⟨fun h => ?_, fun ⟨hline, hhead, hname⟩ => hline ▸ ofChars_entry hhead hname value⟩
  by_cases hspace : line.head? = some ' '
  · obtain ⟨rest, rfl⟩ := List.head?_eq_some_iff.1 hspace
    cases h
  · rw [ofChars_of_head? hspace] at h
    split at h
    · rename_i hsplit
      cases h
      obtain ⟨rfl, hname⟩ := splitAttribute?_eq_some_iff.1 hsplit
      exact ⟨rfl, fun hhead => hspace (List.mem_head?_append_of_mem_head? hhead), hname⟩
    · cases h

/-- **A line without is none.** -/
theorem ofChars_misfit (hhead : line.head? ≠ some ' ') (h : ¬HoldsColon line) :
    ManifestLine.ofChars line = .misfit line := by
  rw [ofChars_of_head? hhead, splitAttribute?_eq_none_iff.2 h]

end Manifest

end ClassAccess
