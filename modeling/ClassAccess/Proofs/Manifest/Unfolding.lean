import ClassAccess.Proofs.Manifest.Lines

/-!
# Unfolding what was folded

A main section is written entry by entry, with long values folded into several lines, and lines that
are no attributes in between. Reading it gives the attributes again, each with its whole value.

* `linesOf_append_end`, `linesOf_continuation` -- one written line, and the lines behind it;
* `gather_continued`, `gather_skipped` -- **what continues an attribute is added to its value**, and
  what continues another line is dropped;
* `gather_entry`, `attributes_written` -- one entry, and then all of them: **what is read are the
  attributes that were written**;
* `mainAttributes_unfold` -- the same of the attributes by their names; **lines that are no
  attributes change nothing**.
-/

namespace ClassAccess.Manifest

open Section

variable {line name value rest : List Char} {entries : List Entry}

/-! ## 1. One written line -/

/-- **A line is read as it was written**, however it ends. -/
theorem linesOf_append_end (h : Inline line) (hne : line ≠ []) (e : LineEnd) (rest : List Char) :
    linesOf (line ++ e.chars ++ rest) = .ofChars line :: linesOf rest := by
  cases e with
  | feed =>
      rw [LineEnd.chars, List.append_assoc, List.singleton_append, linesOf_append_line h.1,
        trimmed_of_not_mem h.2, if_neg hne]
  | returnAndFeed =>
      have hfeed : '\n' ∉ line ++ ['\r'] := fun hmem =>
        (List.mem_append.1 hmem).elim h.1 (by decide)
      have hline : line ++ ['\r', '\n'] ++ rest = (line ++ ['\r']) ++ '\n' :: rest := by
        rw [List.append_assoc, List.append_assoc]
        rfl
      rw [LineEnd.chars, hline, linesOf_append_line hfeed, trimmed_concat_return h.2, if_neg hne]

/-- A line that starts with a space continues what stands before it, whatever else it holds. -/
theorem linesOf_space (h : '\n' ∉ value) (rest : List Char) :
    linesOf (' ' :: value ++ '\n' :: rest) = .continuation (trimmed value) :: linesOf rest := by
  have hspace : '\n' ∉ ' ' :: value := List.not_mem_cons_of_ne_of_not_mem (by decide) h
  have htrimmed : trimmed (' ' :: value) = ' ' :: trimmed value :=
    trimmed_append_cons (by decide) [] value
  rw [linesOf_append_line hspace, htrimmed, if_neg (List.cons_ne_nil _ _)]
  rfl

theorem linesOf_continuation {p : Piece} (h : '\n' ∉ p.value) (rest : List Char) :
    ∃ more, linesOf (' ' :: p.chars ++ rest) = .continuation more :: linesOf rest ∧
      ('\r' ∉ p.value → more = p.value) := by
  obtain ⟨value, e⟩ := p
  cases e with
  | feed =>
      refine ⟨trimmed value, ?_, trimmed_of_not_mem⟩
      rw [← linesOf_space h, Piece.chars, LineEnd.chars, List.cons_append, List.append_assoc]
      rfl
  | returnAndFeed =>
      have hfeed : '\n' ∉ value ++ ['\r'] := fun hmem =>
        (List.mem_append.1 hmem).elim h (by decide)
      refine ⟨trimmed (value ++ ['\r']), ?_, trimmed_concat_return⟩
      rw [← linesOf_space hfeed, Piece.chars, LineEnd.chars]
      simp only [List.cons_append, List.append_assoc, List.nil_append]

/-! ## 2. One entry -/

/-- **What continues an attribute is added to its value.** -/
theorem gather_continued {more : List Piece} (h : ∀ p ∈ more, Inline p.value)
    (name value rest : List Char) :
    gather (some (name, value)) (linesOf (continued more ++ rest)) =
      gather (some (name, value ++ more.flatMap Piece.value)) (linesOf rest) := by
  induction more generalizing value with
  | nil => rw [List.flatMap_nil, List.append_nil]; rfl
  | cons p more ih =>
      obtain ⟨hp, hmore⟩ := List.forall_mem_cons.1 h
      obtain ⟨v, hline, hv⟩ := linesOf_continuation hp.1 (continued more ++ rest)
      rw [continued, List.flatMap_cons, ← continued, List.append_assoc, hline, hv hp.2, gather,
        Option.map_some, ih hmore, List.flatMap_cons, List.append_assoc]

/-- **What continues a line that is no attribute is dropped.** -/
theorem gather_skipped {more : List Piece} (h : ∀ p ∈ more, '\n' ∉ p.value) (rest : List Char) :
    gather none (linesOf (continued more ++ rest)) = gather none (linesOf rest) := by
  induction more with
  | nil => rfl
  | cons p more ih =>
      obtain ⟨hp, hmore⟩ := List.forall_mem_cons.1 h
      obtain ⟨v, hline, -⟩ := linesOf_continuation hp (continued more ++ rest)
      rw [continued, List.flatMap_cons, ← continued, List.append_assoc, hline, gather,
        Option.map_none, ih hmore]

/-- **An entry ends the attribute in front of it**, and is the attribute that goes on from there. -/
theorem gather_entry {e : Entry} (h : e.Legible) (begun : Option (List Char × List Char))
    (rest : List Char) : gather begun (linesOf (e.chars ++ rest)) =
      begun.toList ++ gather e.attribute? (linesOf rest) := by
  cases e with
  | pair name first more =>
      obtain ⟨hname, hhead, hcolon, hpieces⟩ := h
      obtain ⟨hfirst, hmore⟩ := List.forall_mem_cons.1 hpieces
      have hline : Inline (name ++ ':' :: ' ' :: first.value) := by
        unfold Inline at hname hfirst ⊢
        simp only [List.mem_append, List.mem_cons]
        refine ⟨?_, ?_⟩
        · rintro (hmem | hmem | hmem | hmem)
          · exact hname.1 hmem
          · cases hmem
          · cases hmem
          · exact hfirst.1 hmem
        · rintro (hmem | hmem | hmem | hmem)
          · exact hname.2 hmem
          · cases hmem
          · cases hmem
          · exact hfirst.2 hmem
      have hne : name ++ ':' :: ' ' :: first.value ≠ [] :=
        List.append_ne_nil_of_right_ne_nil _ (List.cons_ne_nil _ _)
      have hchars : (Entry.pair name first more).chars ++ rest =
          (name ++ ':' :: ' ' :: first.value) ++ first.lineEnd.chars ++
            (continued more ++ rest) := by
        simp only [Entry.chars, Piece.chars, List.append_assoc, List.cons_append]
      rw [hchars, linesOf_append_end hline hne, ofChars_entry hhead hcolon, gather,
        gather_continued hmore]
      rfl
  | misfit line more =>
      obtain ⟨hne, hhead, hcolon, hline, hmore⟩ := h
      have hchars : (Entry.misfit line more).chars ++ rest =
          line.value ++ line.lineEnd.chars ++ (continued more ++ rest) := by
        simp only [Entry.chars, Piece.chars, List.append_assoc]
      rw [hchars, linesOf_append_end hline hne, ofChars_misfit hhead hcolon, gather,
        gather_skipped hmore]
      rfl

/-! ## 3. The whole section -/

/-- What may stand behind a section: nothing, or an empty line and any text. -/
def Section.Ends (behind : List Char) : Prop :=
  behind = [] ∨ ∃ (e : LineEnd) (text : List Char), behind = e.chars ++ text

/-- Nothing behind a section is read. -/
theorem linesOf_of_ends {behind : List Char} (h : Ends behind) : linesOf behind = [] := by
  rcases h with rfl | ⟨e, text, rfl⟩
  · rfl
  · cases e with
    | feed => exact (linesOf_append_line List.not_mem_nil text).trans (if_pos rfl)
    | returnAndFeed =>
        have hfeed : '\n' ∉ ['\r'] := by decide
        exact (linesOf_append_line hfeed text).trans (if_pos rfl)

/-- **What is read are the attributes that were written**, in order. The induction is on the
    entries; the attribute that has begun is the one of the entry in front. -/
theorem gather_chars (h : ∀ e ∈ entries, e.Legible) {behind : List Char} (hbehind : Ends behind)
    (begun : Option (List Char × List Char)) :
    gather begun (linesOf (chars entries ++ behind)) =
      begun.toList ++ Section.attributes entries := by
  induction entries generalizing begun with
  | nil =>
      have hchars : chars [] ++ behind = behind := rfl
      rw [hchars, linesOf_of_ends hbehind]
      exact (List.append_nil _).symm
  | cons e entries ih =>
      obtain ⟨he, hentries⟩ := List.forall_mem_cons.1 h
      have hattributes : Section.attributes (e :: entries) =
          e.attribute?.toList ++ Section.attributes entries := by
        unfold Section.attributes
        rw [List.filterMap_cons]
        cases e.attribute? <;> rfl
      rw [chars, List.flatMap_cons, ← chars, List.append_assoc, gather_entry he, ih hentries,
        hattributes]

/-- The attributes among entries as names and values. -/
def Section.pairs (entries : List Entry) : List (String × String) :=
  (Section.attributes entries).map fun a => (String.ofList a.1, String.ofList a.2)

theorem attributes_written (h : ∀ e ∈ entries, e.Legible) {behind : List Char}
    (hbehind : Ends behind) :
    attributes (String.ofList (chars entries ++ behind)) = pairs entries := by
  rw [attributes_ofList, gather_chars h hbehind]
  rfl

/-- The entries that are attributes. -/
def Section.plain (entries : List Entry) : List Entry := entries.filter fun e => e.attribute?.isSome

/-- Lines that are no attributes leave the attributes as they are. -/
theorem pairs_plain (entries : List Entry) : pairs (plain entries) = pairs entries := by
  have hplain : Section.attributes (plain entries) = Section.attributes entries := by
    unfold Section.attributes plain
    rw [List.filterMap_filter]
    refine List.filterMap_congr fun e _ => ?_
    cases e <;> rfl
  rw [pairs, hplain, pairs]

/-- **Unfolding undoes folding.** A section that is written with long values in several lines, with
    line ends of either kind, with lines that are no attributes in between and with any text behind
    an empty line has the attributes that were written, as far as their names are different. Without
    the lines that are no attributes it has the same, whatever stands behind it then. -/
theorem mainAttributes_unfold {behind : List Char} (hlegible : ∀ e ∈ entries, e.Legible)
    (hdistinct : ((pairs entries).map Prod.fst).Nodup) (hbehind : Ends behind) :
    (mainAttributes (String.ofList (chars entries ++ behind))).entries.Perm (pairs entries)
      ∧ ∀ behind', Ends behind' →
        mainAttributes (String.ofList (chars (plain entries) ++ behind')) =
          mainAttributes (String.ofList (chars entries ++ behind)) := by
  refine ⟨?_, fun behind' hbehind' => ?_⟩
  · rw [mainAttributes, attributes_written hlegible hbehind]
    exact Listing.entries_ofList_perm hdistinct
  · have hplain : ∀ e ∈ plain entries, e.Legible := fun e he =>
      hlegible e (List.mem_of_mem_filter he)
    rw [mainAttributes, mainAttributes, attributes_written hplain hbehind',
      attributes_written hlegible hbehind, pairs_plain]

/-- A section with a value in four lines, one of them empty, that holds a colon and spaces of its
    own, between lines that are no attributes. -/
def Section.foldedTwice : List Entry := [
  .misfit ⟨"Main:x".toList, .feed⟩ [⟨"y: z".toList, .returnAndFeed⟩],
  .pair "FMLAT".toList ⟨"a_at.cfg ".toList, .returnAndFeed⟩
    [⟨[], .feed⟩, ⟨" b: c".toList, .returnAndFeed⟩, ⟨".cfg".toList, .feed⟩],
  .misfit ⟨"-".toList, .returnAndFeed⟩ [⟨"d".toList, .feed⟩, ⟨[], .feed⟩],
  .pair "A:".toList ⟨[], .feed⟩ []]

theorem mainAttributes_unfold_foldedTwice :
    (mainAttributes (String.ofList (chars foldedTwice ++ "\r\nFMLAT: x\n".toList))).entries.Perm
        [("FMLAT", "a_at.cfg  b: c.cfg"), ("A:", "")]
      ∧ ∀ behind', Ends behind' →
        mainAttributes (String.ofList (chars (plain foldedTwice) ++ behind')) =
          mainAttributes (String.ofList (chars foldedTwice ++ "\r\nFMLAT: x\n".toList)) :=
  mainAttributes_unfold (by decide) (by decide) (.inr ⟨.returnAndFeed, "FMLAT: x\n".toList, rfl⟩)

end ClassAccess.Manifest
