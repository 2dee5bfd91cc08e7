import ClassAccess.Proofs.Text.Words
import ClassAccess.Proofs.TransformSet.Lookup
import ClassAccess.TransformSet.Representable
import Mathlib.Data.List.TakeDrop
import Mathlib.Data.List.TakeWhile

/-!
# Directives read back

A set that is written as directives and read again asks for the same, unless it asks for something
that directives cannot say.

* `Transform.ofToken_token`, `Target.ofWord_word`, `Directive.ofChars_line` -- a request, a target
  and a whole line mean what they were written for;
* `Target.representable_ofWord`, `representable_ofText` -- **what is read can be said**;
* `representable_iff` -- what a set asks for can be said, target by target;
* `mem_directives_iff` -- the directives of a set say what it asks for;
* `asked_mergeDirectives_le_iff` -- what directives ask for is joined;
* `ofText_text_same_iff` -- **exactly the sets that directives can say are read back**, and so is
  every set that was read.
-/

namespace ClassAccess

/-! ## 1. Requests and targets as words -/

namespace Transform

theorem ofToken_token (t : Transform) : ofToken t.token = t := by
  obtain ⟨v, f⟩ := t
  cases v <;> cases f <;> decide

instance (c : Char) : Decidable (wordChar c) := inferInstanceAs (Decidable (_ ∧ _))

instance (s : String) : Decidable (WordText s) :=
  @instDecidableAnd _ _ inferInstance (List.decidableBAll wordChar s.toList)

/-- A request for something is a word. -/
theorem wordText_token {t : Transform} (h : t ≠ none) : WordText t.token := by
  obtain ⟨v, f⟩ := t
  cases v <;> cases f <;> first | exact absurd rfl h | decide

end Transform

namespace Target

/-- A word is cut in front of its first parenthesis. -/
theorem span_append {name descriptor : List Char} (hname : '(' ∉ name)
    (hdescriptor : descriptor = [] ∨ descriptor.head? = some '(') :
    (name ++ descriptor).span (· ≠ '(') = (name, descriptor) := by
  have hall : ∀ c ∈ name, decide (c ≠ '(') = true := fun c hc =>
    decide_eq_true fun he => hname (he ▸ hc)
  have htake : descriptor.takeWhile (· ≠ '(') = [] ∧
      descriptor.dropWhile (· ≠ '(') = descriptor := by
    rcases hdescriptor with rfl | h
    · exact ⟨rfl, rfl⟩
    · cases descriptor with
      | nil => cases h
      | cons c rest =>
          cases h
          exact ⟨rfl, rfl⟩
  rw [List.span_eq_takeWhile_dropWhile, List.takeWhile_append_of_pos hall,
    List.dropWhile_append_of_pos hall, htake.1, htake.2, List.append_nil]

/-- **The word for a target means the target.** -/
theorem ofWord_word {target : Target} (h : target.Representable) {word : String}
    (hw : target.word? = some word) : ofWord word.toList = target := by
  cases target with
  | self => cases hw
  | allFields | allMethods => cases hw; decide
  | field name =>
      cases hw
      obtain ⟨-, -, hparen, hstar⟩ := h
      have hspan := span_append hparen (.inl rfl)
      rw [List.append_nil] at hspan
      simp only [ofWord, hspan, List.isEmpty_nil, if_true, if_neg hstar, String.ofList_toList]
  | method m =>
      cases hw
      obtain ⟨⟨-, hparen, hstar⟩, -, hhead, hne⟩ := h
      have hspan := span_append hparen (.inr hhead)
      have hnil : m.descriptor.toList.isEmpty = false := by
        cases hd : m.descriptor.toList with
        | nil => rw [hd] at hhead; cases hhead
        | cons => rfl
      have hne' : m.descriptor.toList ≠ ['(', ')'] := fun he =>
        hne (String.toList_inj.1 he)
      simp only [ofWord, Signature.text, String.toList_append, hspan, hnil, Bool.false_eq_true,
        if_false, hstar, hne', decide_false, Bool.or_self, String.ofList_toList]

/-- The word for a target that can be said is a word. -/
theorem wordText_word {target : Target} (h : target.Representable) {word : String}
    (hw : target.word? = some word) : WordText word := by
  cases target with
  | self => cases hw
  | allFields | allMethods => cases hw; decide
  | field name =>
      cases hw
      exact ⟨h.1, h.2.1⟩
  | method m =>
      cases hw
      obtain ⟨⟨hname, -, -⟩, hdescriptor, hhead, -⟩ := h
      refine ⟨fun he => ?_, fun c hc => ?_⟩
      · have hnil := congrArg String.toList he
        rw [Signature.text, String.toList_append] at hnil
        rw [(List.append_eq_nil_iff.1 hnil).2] at hhead
        cases hhead
      · rw [Signature.text, String.toList_append] at hc
        rcases List.mem_append.1 hc with hc | hc
        · exact hname c hc
        · exact hdescriptor c hc

/-- **What a word means can be said.** -/
theorem representable_ofWord {word : List Char} (hne : word ≠ []) (h : ∀ c ∈ word, wordChar c) :
    (ofWord word).Representable := by
  have hmem : ∀ c ∈ word.takeWhile (· ≠ '('), wordChar c := fun c hc =>
    h c ((List.takeWhile_sublist _).subset hc)
  have hmem' : ∀ c ∈ word.dropWhile (· ≠ '('), wordChar c := fun c hc =>
    h c ((List.dropWhile_sublist _).subset hc)
  have hparen : '(' ∉ word.takeWhile (· ≠ '(') := fun hc => by
    simpa using List.mem_takeWhile_imp hc
  have hall := List.takeWhile_append_dropWhile (p := (· ≠ '(')) (l := word)
  have hhead := List.head?_dropWhile_not (· ≠ '(') word
  unfold ofWord
  rw [List.span_eq_takeWhile_dropWhile]
  generalize word.takeWhile (· ≠ '(') = name at *
  generalize word.dropWhile (· ≠ '(') = descriptor at *
  simp only
  split
  · rename_i hnil
    rw [List.isEmpty_iff] at hnil
    split
    · exact trivial
    · rename_i hstar
      refine ⟨fun he => hne ?_, ?_, ?_, ?_⟩
      · have hname := congrArg String.toList he
        rw [String.toList_ofList] at hname
        rw [← hall, hnil, hname]
        rfl
      · rwa [String.toList_ofList]
      · rwa [String.toList_ofList]
      · rwa [String.toList_ofList]
  · rename_i hcons
    split
    · exact trivial
    · rename_i hmethod
      rw [Bool.or_eq_true, decide_eq_true_eq, decide_eq_true_eq, not_or] at hmethod
      refine ⟨⟨?_, ?_, ?_⟩, ?_, ?_, fun he => hmethod.2 ?_⟩
      · rwa [String.toList_ofList]
      · rwa [String.toList_ofList]
      · rw [String.toList_ofList]
        exact hmethod.1
      · rwa [String.toList_ofList]
      · rw [String.toList_ofList]
        cases descriptor with
        | nil => exact absurd rfl hcons
        | cons c rest => simpa using hhead
      · have hd := congrArg String.toList he
        rwa [String.toList_ofList] at hd

end Target

/-! ## 2. Lines -/

theorem WordText.isBlank_eq_false {s : String} (h : WordText s) :
    ∀ c ∈ s.toList, Blank.isBlank c = false := fun c hc => (h.2 c hc).1

theorem WordText.toList_ne_nil {s : String} (h : WordText s) : s.toList ≠ [] := fun he =>
  h.1 (String.toList_eq_nil_iff.1 he)

namespace Directive

/-- Whether the line of a directive says what the directive does. -/
def Representable (d : Directive) : Prop :=
  d.transform ≠ .none ∧ WordText d.className ∧ d.target.Representable

variable {d : Directive}

/-- The words of a line are divided by spaces, and a line has no other blank. -/
theorem mem_line (h : d.Representable) {c : Char} (hc : c ∈ d.line.toList) :
    c = ' ' ∨ wordChar c := by
  obtain ⟨hne, hname, htarget⟩ := h
  have htoken := Transform.wordText_token hne
  have hspace : ∀ {c}, c ∈ " ".toList → c = ' ' := List.mem_singleton.1
  unfold line at hc
  cases hw : d.target.word? with
  | none =>
      simp only [hw, String.toList_append, List.mem_append] at hc
      rcases hc with (hc | hc) | hc
      · exact .inr (htoken.2 c hc)
      · exact .inl (hspace hc)
      · exact .inr (hname.2 c hc)
  | some word =>
      have hword := Target.wordText_word htarget hw
      simp only [hw, String.toList_append, List.mem_append] at hc
      rcases hc with (((hc | hc) | hc) | hc) | hc
      · exact .inr (htoken.2 c hc)
      · exact .inl (hspace hc)
      · exact .inr (hname.2 c hc)
      · exact .inl (hspace hc)
      · exact .inr (hword.2 c hc)

/-- **The line of a directive says what the directive does.** -/
theorem ofChars_line (h : d.Representable) :
    DirectiveLine.ofChars d.line.toList =
      .directive d.transform.token d.className d.target := by
  have hcomment : d.line.toList.takeWhile (· ≠ '#') = d.line.toList := by
    refine List.takeWhile_eq_self_iff.2 fun c hc => decide_eq_true ?_
    rcases mem_line h hc with rfl | hc
    · decide
    · exact hc.2
  obtain ⟨hne, hname, htarget⟩ := h
  have htoken := Transform.wordText_token hne
  have hspace : " ".toList = [' '] := rfl
  have hblank : Blank.isBlank ' ' = true := rfl
  unfold DirectiveLine.ofChars
  rw [hcomment]
  unfold line
  cases hw : d.target.word? with
  | none =>
      have hself : d.target = .self := by
        cases ht : d.target with
        | self => rfl
        | allFields | allMethods | field | method => rw [ht] at hw; cases hw
      have hwords : Blank.words (d.transform.token ++ " " ++ d.className).toList =
          [d.transform.token.toList, d.className.toList] := by
        simp only [String.toList_append, hspace, List.append_assoc, List.nil_append,
          List.cons_append]
        rw [Blank.words_append_blank htoken.toList_ne_nil htoken.isBlank_eq_false hblank,
          Blank.words_of_forall hname.toList_ne_nil hname.isBlank_eq_false]
      simp only [hwords, String.ofList_toList, hself]
  | some word =>
      have hword := Target.wordText_word htarget hw
      have hwords : Blank.words (d.transform.token ++ " " ++ d.className ++ " " ++ word).toList =
          [d.transform.token.toList, d.className.toList, word.toList] := by
        simp only [String.toList_append, hspace, List.append_assoc, List.nil_append,
          List.cons_append]
        rw [Blank.words_append_blank htoken.toList_ne_nil htoken.isBlank_eq_false hblank,
          Blank.words_append_blank hname.toList_ne_nil hname.isBlank_eq_false hblank,
          Blank.words_of_forall hword.toList_ne_nil hword.isBlank_eq_false]
      have htarget' := Target.ofWord_word htarget hw
      simp only [hwords, String.ofList_toList, htarget']

end Directive

/-! ## 3. What is read can be said -/

namespace TransformSet

variable {s s' : TransformSet} {name : String} {target : Target} {u : Transform}

/-- **A set can be said if each target it asks something for can be said**, and its class. -/
theorem representable_iff : s.Representable ↔
    ∀ name target, s.asked name target ≠ .none → WordText name ∧ target.Representable := by
  rw [← forall_entries_iff (p := fun name target _ => WordText name ∧ target.Representable)]
  refine forall₂_congr fun e _ => ?_
  constructor
  · intro h r hr hne
    have hempty : e.2.isEmpty = false := Bool.eq_false_iff.2 fun he =>
      hne (by rw [← ClassTransforms.get_of_mem_requests hr, ClassTransforms.isEmpty_iff.1 he])
    exact ⟨(h hempty).1, (h hempty).2 r hr hne⟩
  · intro h hempty
    have hsome : ∃ target, e.2.get target ≠ .none := by
      by_contra hall
      push Not at hall
      rw [ClassTransforms.isEmpty_iff.2 hall] at hempty
      cases hempty
    obtain ⟨target, ht⟩ := hsome
    exact ⟨(h _ (ClassTransforms.mem_requests_of_get ht) ht).1, fun r hr hne => (h r hr hne).2⟩

theorem representable_empty : ({} : TransformSet).Representable :=
  representable_iff.2 fun name target h => absurd (asked_empty name target) h

/-- Sets that ask for the same can be said alike. -/
theorem Representable.of_same (h : s.Representable) (hsame : s.same s' = true) :
    s'.Representable := by
  rw [representable_iff] at h ⊢
  simp only [same_iff.1 hsame] at h
  exact h

/-- One more request that can be said. -/
theorem Representable.mergeAt (h : s.Representable) (hname : WordText name)
    (htarget : target.Representable) (t : Transform) : (s.mergeAt name target t).Representable := by
  rw [representable_iff] at h ⊢
  exact forall_asked_mergeAt h ⟨hname, htarget⟩ t

/-- **What a line adds can be said.** -/
theorem Representable.apply_ofChars (h : s.Representable) (line : List Char) :
    ((DirectiveLine.ofChars line).apply s).Representable := by
  have hword : ∀ w ∈ Blank.words (line.takeWhile (· ≠ '#')), w ≠ [] ∧ ∀ c ∈ w, wordChar c := by
    intro w hw
    obtain ⟨hne, hall⟩ := Blank.mem_words hw
    refine ⟨hne, fun c hc => ⟨(hall c hc).1, ?_⟩⟩
    have hcomment := List.mem_takeWhile_imp (hall c hc).2
    exact of_decide_eq_true hcomment
  have htext : ∀ w ∈ Blank.words (line.takeWhile (· ≠ '#')), WordText (String.ofList w) := by
    intro w hw
    refine ⟨fun he => (hword w hw).1 ?_, ?_⟩
    · rw [← String.toList_ofList (l := w), he]
      rfl
    · rw [String.toList_ofList]
      exact (hword w hw).2
  unfold DirectiveLine.ofChars
  generalize Blank.words (line.takeWhile (· ≠ '#')) = words at hword htext ⊢
  split
  · exact h
  · rename_i token className
    exact h.mergeAt (htext className (by simp)) (show Target.Representable .self from trivial) _
  · rename_i token className word
    obtain ⟨hne, hall⟩ := hword word (by simp)
    exact h.mergeAt (htext className (by simp)) (Target.representable_ofWord hne hall) _
  · exact h

theorem Representable.readLines (h : s.Representable) (lines : List (List Char)) :
    (s.readLines lines).Representable := by
  induction lines generalizing s with
  | nil => exact h
  | cons line lines ih => exact ih (h.apply_ofChars line)

/-- **What is read can be said.** -/
theorem representable_ofText (text : String) : (ofText text).Representable :=
  representable_empty.readLines _

/-! ## 4. Directives -/

/-- **The directives of a set say what it asks for**, wherever it asks for something. -/
theorem mem_directives_iff {d : Directive} :
    d ∈ s.directives ↔ d.transform ≠ .none ∧ s.asked d.className d.target = d.transform := by
  obtain ⟨t, name, target⟩ := d
  simp only [directives, classDirectives, List.mem_flatMap, List.mem_map, List.mem_filter,
    Bool.not_eq_true', Directive.mk.injEq]
  constructor
  · rintro ⟨⟨name', c⟩, he, ⟨target', t'⟩, ⟨hr, hne⟩, rfl, rfl, rfl⟩
    refine ⟨fun h => ?_, ?_⟩
    · rw [Transform.isNone_iff.2 h] at hne
      cases hne
    · unfold asked
      rw [get_of_mem_entries he, ClassTransforms.get_of_mem_requests hr]
  · rintro ⟨hne, rfl⟩
    refine ⟨_, mem_entries_of_asked hne, _, ⟨ClassTransforms.mem_requests_of_get hne, ?_⟩,
      rfl, rfl, rfl⟩
    exact Bool.eq_false_iff.2 fun h => hne (Transform.isNone_iff.1 h)

theorem Representable.directives (h : s.Representable) : ∀ d ∈ s.directives, d.Representable := by
  intro d hd
  obtain ⟨hne, hasked⟩ := mem_directives_iff.1 hd
  obtain ⟨hname, htarget⟩ := representable_iff.1 h d.className d.target (hasked ▸ hne)
  exact ⟨hne, hname, htarget⟩

/-- The stored requests that ask for something are those that are visible. -/
theorem filter_entries_nonempty? {κ : Type} [Ord κ] (l : Listing κ Transform) (f : κ → Target) :
    ((l.filterMap ClassTransforms.nonempty?).entries.map fun e => (f e.1, e.2)).filter
        (!·.2.isNone) =
      (l.entries.map fun e => (f e.1, e.2)).filter (!·.2.isNone) := by
  change ((l.entries.filterMap _).map _).filter _ = _
  induction l.entries with
  | nil => rfl
  | cons e entries ih =>
      by_cases he : e.2.isNone = true
      · simp only [List.filterMap_cons, ClassTransforms.nonempty?, he, if_true, Option.map_none,
          List.map_cons, List.filter_cons, Bool.not_true, Bool.false_eq_true, if_false]
        exact ih
      · simp only [List.filterMap_cons, ClassTransforms.nonempty?, he, Bool.false_eq_true, if_false,
          Option.map_some, List.map_cons, List.filter_cons, Bool.not_false, if_true]
        exact congrArg _ ih

theorem classDirectives_of_isEmpty {c : ClassTransforms} (h : c.isEmpty = true) (name : String) :
    classDirectives name c = [] := by
  unfold ClassTransforms.isEmpty at h
  unfold classDirectives
  rw [List.filter_eq_nil_iff.2, List.map_nil]
  intro r hr
  rw [List.all_eq_true.1 h r hr]
  exact Bool.false_ne_true

theorem classDirectives_visible (name : String) (c : ClassTransforms) :
    classDirectives name c.visible = classDirectives name c := by
  unfold classDirectives ClassTransforms.requests ClassTransforms.visible
  simp only [List.filter_append, filter_entries_nonempty?]

/-- Requests for nothing have no directives. -/
theorem directives_visible (s : TransformSet) : s.visible.directives = s.directives := by
  change (s.classes.entries.filterMap _).flatMap _ = s.classes.entries.flatMap _
  induction s.classes.entries with
  | nil => rfl
  | cons e entries ih =>
      rw [List.flatMap_cons, ← ih, List.filterMap_cons]
      by_cases he : e.2.isEmpty = true
      · simp only [he, if_true, Option.map_none, classDirectives_of_isEmpty he, List.nil_append]
      · simp only [he, Bool.false_eq_true, if_false, Option.map_some, List.flatMap_cons,
          classDirectives_visible]

/-- The set with what some directives ask for added. -/
def mergeDirectives (s : TransformSet) (directives : List Directive) : TransformSet :=
  directives.foldl (fun s d => s.mergeAt d.className d.target d.transform) s

/-- **What a set asks for after some directives is the join** of what it asked for and of the
    directives for the target. -/
theorem asked_mergeDirectives_le_iff (directives : List Directive) (s : TransformSet) :
    (s.mergeDirectives directives).asked name target ≤ u ↔
      s.asked name target ≤ u ∧
        ∀ d ∈ directives, d.className = name ∧ d.target = target → d.transform ≤ u := by
  have hask : s.mergeDirectives directives =
      s.askAll (directives.map fun d => (d.className, d.target, d.transform)) := by
    unfold mergeDirectives askAll askEach
    rw [List.foldl_map]
    rfl
  rw [hask, asked_askAll_le_iff, List.forall_mem_map]

/-- Lines of directives add what the directives ask for. -/
theorem readLines_map_line {directives : List Directive} (h : ∀ d ∈ directives, d.Representable)
    (s : TransformSet) :
    s.readLines (directives.map (·.line.toList)) = s.mergeDirectives directives := by
  induction directives generalizing s with
  | nil => rfl
  | cons d directives ih =>
      obtain ⟨hd, hdirectives⟩ := List.forall_mem_cons.1 h
      have hline : (DirectiveLine.ofChars d.line.toList).apply s =
          s.mergeAt d.className d.target d.transform := by
        rw [Directive.ofChars_line hd, DirectiveLine.apply, Transform.ofToken_token]
      rw [List.map_cons]
      exact (congrArg (TransformSet.readLines · _) hline).trans (ih hdirectives _)

theorem toList_text (s : TransformSet) :
    s.text.toList = (s.directives.map (·.line.toList)).flatMap (· ++ ['\n']) := by
  unfold text
  rw [String.toList_join, List.flatMap_map, List.flatMap_map]
  simp only [String.toList_append]
  rfl

/-- **The text of a set has the lines of its directives.** -/
theorem ofText_toList_text (h : ∀ d ∈ s.directives, d.Representable) :
    Line.ofText s.text.toList = s.directives.map (·.line.toList) := by
  rw [toList_text]
  refine Line.split_lines fun line hline => ?_
  obtain ⟨d, hd, rfl⟩ := List.mem_map.1 hline
  have hne : ∀ c, Blank.isBlank c = true → c ≠ ' ' → c ∉ d.line.toList := fun c hb hs hc =>
    (Directive.mem_line (h d hd) hc).elim hs fun hw => by rw [hw.1] at hb; cases hb
  exact ⟨hne _ (by decide) (by decide), hne _ (by decide) (by decide)⟩

/-! ## 5. Sets read back -/

/-- **A set that can be said asks for the same when it is read back.** -/
theorem Representable.ofText_text_same (h : s.Representable) : (ofText s.text).same s = true := by
  have hd := h.directives
  refine same_iff.2 fun name target => Transform.eq_of_le_iff fun u => ?_
  unfold ofText readText
  rw [ofText_toList_text hd, readLines_map_line hd, asked_mergeDirectives_le_iff, asked_empty]
  simp only [Transform.none_le, true_and]
  constructor
  · intro hall
    by_cases hne : s.asked name target = .none
    · rw [hne]
      exact Transform.none_le u
    · exact hall ⟨s.asked name target, name, target⟩ (mem_directives_iff.2 ⟨hne, rfl⟩) ⟨rfl, rfl⟩
  · rintro hle d hd ⟨rfl, rfl⟩
    rwa [← (mem_directives_iff.1 hd).2]

/-- Sets that ask for the same have the same text. -/
theorem text_eq_of_same (h : s.same s' = true) : s.text = s'.text := by
  have hvisible : s.visible = s'.visible := of_decide_eq_true h
  have hdirectives : s.directives = s'.directives := by
    rw [← directives_visible s, hvisible, directives_visible s']
  unfold text
  rw [hdirectives]

/-- **Exactly the sets that directives can say are read back**, and so is every set that was read,
    with the same text. -/
theorem ofText_text_same_iff :
    (∀ s : TransformSet, (ofText s.text).same s = true ↔ s.Representable) ∧
      ∀ t : String, (ofText t).Representable ∧
        (ofText (ofText t).text).same (ofText t) = true ∧
          (ofText (ofText t).text).text = (ofText t).text := by
  refine ⟨fun s => ⟨fun h => (representable_ofText s.text).of_same h, fun h => h.ofText_text_same⟩,
    fun t => ?_⟩
  have hread := representable_ofText t
  exact ⟨hread, hread.ofText_text_same, text_eq_of_same hread.ofText_text_same⟩

end TransformSet

end ClassAccess
