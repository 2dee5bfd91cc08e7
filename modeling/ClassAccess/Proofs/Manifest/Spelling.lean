import ClassAccess.Proofs.Manifest.Lookup

/-!
# Manifests that differ in the case of names

The names of the attributes in a text may be written in other letters, capital or small. What that
does to the attributes that are found.

* `Recased` -- texts that differ in the case of the names of attributes only;
* `attributes_recased`, `exists_recased` -- **their attributes differ in the case of their names**,
  in every way in which these can differ;
* `attribute?_recased` -- the case of the name that is asked for never matters, and that of the
  names in the text **does not matter exactly where an attribute has one value, or no letters**.
-/

namespace ClassAccess.Manifest

open Section

variable {line line' name name' rest rest' text text' : List Char}

/-! ## 1. Names in other letters -/

theorem mem_map_toLower_iff {c : Char} (hc : c.isAlpha = false) :
    c ∈ name.map Char.toLower ↔ c ∈ name := by
  rw [List.mem_map]
  constructor
  · rintro ⟨d, hd, h⟩
    rwa [← (toLower_eq_iff hc).1 h]
  · exact fun h => ⟨c, h, (toLower_eq_iff hc).2 rfl⟩

theorem head?_map_toLower_iff {c : Char} (hc : c.isAlpha = false) :
    (name.map Char.toLower).head? = some c ↔ name.head? = some c := by
  rw [List.head?_map, Option.map_eq_some_iff]
  constructor
  · rintro ⟨d, hd, h⟩
    rwa [← (toLower_eq_iff hc).1 h]
  · exact fun h => ⟨c, h, (toLower_eq_iff hc).2 rfl⟩

/-- Where a name ends does not depend on its letters. -/
theorem holdsColon_map_toLower_iff : HoldsColon (name.map Char.toLower) ↔ HoldsColon name := by
  induction name with
  | nil => rfl
  | cons c name ih =>
      rw [List.map_cons, holdsColon_cons, holdsColon_cons, ih, head?_map_toLower_iff rfl,
        toLower_eq_iff rfl]

/-- Whether a text is a name as it may stand at the front of a line. -/
def IsName (name : List Char) : Prop := name.head? ≠ some ' ' ∧ ¬HoldsColon name

instance (name : List Char) : Decidable (IsName name) := inferInstanceAs (Decidable (_ ∧ _))

theorem IsName.of_map_toLower (hname : IsName name)
    (h : name.map Char.toLower = name'.map Char.toLower) : IsName name' := by
  obtain ⟨hhead, hcolon⟩ := hname
  rw [ne_eq, ← head?_map_toLower_iff rfl, h, head?_map_toLower_iff rfl] at hhead
  rw [← holdsColon_map_toLower_iff, h, holdsColon_map_toLower_iff] at hcolon
  exact ⟨hhead, hcolon⟩

/-! ## 2. Lines -/

/-- Whether two lines differ at most in the case of the name of an attribute. -/
inductive RecasedLine : List Char → List Char → Prop
  | same (line : List Char) : RecasedLine line line
  | renamed {name name' : List Char} (value : List Char) (hname : IsName name)
    (h : name.map Char.toLower = name'.map Char.toLower) :
    RecasedLine (name ++ ':' :: ' ' :: value) (name' ++ ':' :: ' ' :: value)

/-- Whether two texts differ at most in the case of the names of attributes, line by line. -/
inductive Recased : List Char → List Char → Prop
  | last {line line' : List Char} (hline : '\n' ∉ line) (h : RecasedLine line line') :
    Recased line line'
  | ended {line line' rest rest' : List Char} (hline : '\n' ∉ line) (h : RecasedLine line line')
    (hrest : Recased rest rest') : Recased (line ++ '\n' :: rest) (line' ++ '\n' :: rest')

/-- Whether two lines of a section differ at most in the case of a name. -/
inductive Respells : ManifestLine → ManifestLine → Prop
  | entry {name name' : List Char} (value : List Char)
    (h : name.map Char.toLower = name'.map Char.toLower) :
    Respells (.entry name value) (.entry name' value)
  | continuation (value : List Char) : Respells (.continuation value) (.continuation value)
  | misfit (line : List Char) : Respells (.misfit line) (.misfit line)

theorem respells_refl : ∀ l : ManifestLine, Respells l l
  | .entry _ value => .entry value rfl
  | .continuation value => .continuation value
  | .misfit line => .misfit line

theorem RecasedLine.not_mem (h : RecasedLine line line') (hline : '\n' ∉ line) : '\n' ∉ line' := by
  cases h with
  | same => exact hline
  | renamed value _ h =>
      rw [List.mem_append, ← mem_map_toLower_iff rfl, ← h, mem_map_toLower_iff rfl,
        ← List.mem_append]
      exact hline

theorem RecasedLine.eq_nil_iff (h : RecasedLine line line') : line' = [] ↔ line = [] := by
  cases h with
  | same => rfl
  | renamed =>
      exact iff_of_false (List.append_ne_nil_of_right_ne_nil _ (List.cons_ne_nil _ _))
        (List.append_ne_nil_of_right_ne_nil _ (List.cons_ne_nil _ _))

/-- Such lines are the same but for the name. -/
theorem RecasedLine.respells (h : RecasedLine line line') :
    Respells (.ofChars line) (.ofChars line') := by
  cases h with
  | same => exact respells_refl _
  | @renamed name name' value hname h =>
      have hname' := hname.of_map_toLower h
      rw [ofChars_entry hname.1 hname.2, ofChars_entry hname'.1 hname'.2]
      exact .entry value h

/-! ## 3. Lines that are trimmed -/

/-- Whether a function drops carriage returns, at most, and from the end of a line only. -/
structure Trims (strip : List Char → List Char) : Prop where
  append_cons : ∀ {c : Char}, c ≠ '\r' → ∀ x y, strip (x ++ c :: y) = x ++ c :: strip y
  exists_append : ∀ line, ∃ dropped, line = strip line ++ dropped

theorem trims_stripReturn : Trims stripReturn where
  append_cons := stripReturn_append_cons
  exists_append line := by
    rcases Line.close_reverse '\r' line with h | h
    · exact ⟨[], h.symm.trans (List.append_nil _).symm⟩
    · exact ⟨['\r'], h⟩

theorem trims_trimmed : Trims trimmed where
  append_cons := trimmed_append_cons
  exists_append line := by
    obtain ⟨dropped, h⟩ := trims_stripReturn.exists_append line
    obtain ⟨dropped', h'⟩ := trims_stripReturn.exists_append (stripReturn line)
    refine ⟨dropped' ++ dropped, ?_⟩
    rw [← List.append_assoc, trimmed, ← h', ← h]

variable {strip : List Char → List Char}

theorem Trims.attribute (hstrip : Trims strip) (name value : List Char) :
    strip (name ++ ':' :: ' ' :: value) = name ++ ':' :: ' ' :: strip value := by
  rw [hstrip.append_cons (by decide)]
  exact congrArg (fun rest => name ++ ':' :: rest) (hstrip.append_cons (by decide) [] value)

theorem RecasedLine.trim (hstrip : Trims strip) (h : RecasedLine line line') :
    RecasedLine (strip line) (strip line') := by
  cases h with
  | same => exact .same _
  | renamed value hname h =>
      rw [hstrip.attribute, hstrip.attribute]
      exact .renamed _ hname h

/-- **What a line is may be spelled in any letters.** -/
theorem exists_recasedLine (hstrip : Trims strip) {l : ManifestLine}
    (h : Respells (.ofChars (strip line)) l) :
    ∃ line', RecasedLine line line' ∧ ManifestLine.ofChars (strip line') = l := by
  generalize hofChars : ManifestLine.ofChars (strip line) = first at h
  cases h with
  | continuation => exact ⟨line, .same _, hofChars⟩
  | misfit => exact ⟨line, .same _, hofChars⟩
  | @entry name name' value h =>
      obtain ⟨hline, hname⟩ := ofChars_eq_entry_iff.1 hofChars
      obtain ⟨dropped, hdropped⟩ := hstrip.exists_append line
      rw [hline, List.append_assoc, List.cons_append, List.cons_append] at hdropped
      -- what is dropped belongs to the value, so it is dropped behind another name too
      have hvalue : strip (value ++ dropped) = value := by
        rw [hdropped, hstrip.attribute] at hline
        exact (List.cons.inj (List.cons.inj (List.append_cancel_left hline)).2).2
      have hname' : IsName name' := IsName.of_map_toLower hname h
      refine ⟨name' ++ ':' :: ' ' :: (value ++ dropped), hdropped ▸ .renamed _ hname h, ?_⟩
      rw [hstrip.attribute, hvalue, ofChars_entry hname'.1 hname'.2]

/-! ## 4. Texts -/

/-- The lines of texts that differ in the case of names do so, too. -/
theorem linesOf_recased (h : Recased text text') :
    List.Forall₂ Respells (linesOf text) (linesOf text') := by
  induction h with
  | last hline h =>
      have htrim := h.trim trims_stripReturn
      rw [linesOf_of_not_mem hline, linesOf_of_not_mem (h.not_mem hline)]
      simp only [htrim.eq_nil_iff]
      split
      · exact .nil
      · exact .cons htrim.respells .nil
  | ended hline h _ ih =>
      have htrim := h.trim trims_trimmed
      rw [linesOf_append_line hline, linesOf_append_line (h.not_mem hline)]
      simp only [htrim.eq_nil_iff]
      split
      · exact .nil
      · exact .cons htrim.respells ih

theorem recased_refl (text : List Char) : Recased text text := by
  induction text using Line.induction_lines '\n' with
  | nil => exact .last List.not_mem_nil (.same _)
  | last line _ h => exact .last h (.same _)
  | ended line rest h ih => exact .ended h (.same _) ih

/-- **The lines of a text may be spelled in any letters.** -/
theorem exists_recased_linesOf {ls : List ManifestLine}
    (h : List.Forall₂ Respells (linesOf text) ls) :
    ∃ text', Recased text text' ∧ linesOf text' = ls := by
  induction text using Line.induction_lines '\n' generalizing ls with
  | nil =>
      cases h
      exact ⟨[], recased_refl _, rfl⟩
  | last line _ hline =>
      rw [linesOf_of_not_mem hline] at h
      split at h
      · rename_i hempty
        cases h
        exact ⟨line, recased_refl _, (linesOf_of_not_mem hline).trans (if_pos hempty)⟩
      · rename_i hne
        obtain ⟨l, _, hl, hrest, rfl⟩ := List.forall₂_cons_left_iff.1 h
        cases hrest
        obtain ⟨line', hrecased, hl⟩ := exists_recasedLine trims_stripReturn hl
        have hne' : stripReturn line' ≠ [] := mt (hrecased.trim trims_stripReturn).eq_nil_iff.1 hne
        refine ⟨line', .last hline hrecased, ?_⟩
        rw [linesOf_of_not_mem (hrecased.not_mem hline), if_neg hne', hl]
  | ended line rest hline ih =>
      rw [linesOf_append_line hline] at h
      split at h
      · rename_i hempty
        cases h
        exact ⟨_, recased_refl _, (linesOf_append_line hline rest).trans (if_pos hempty)⟩
      · rename_i hne
        obtain ⟨l, ls, hl, hrest, rfl⟩ := List.forall₂_cons_left_iff.1 h
        obtain ⟨line', hrecased, hl⟩ := exists_recasedLine trims_trimmed hl
        obtain ⟨rest', hrest', hls⟩ := ih hrest
        have hne' : trimmed line' ≠ [] := mt (hrecased.trim trims_trimmed).eq_nil_iff.1 hne
        refine ⟨line' ++ '\n' :: rest', .ended hline hrecased hrest', ?_⟩
        rw [linesOf_append_line (hrecased.not_mem hline), if_neg hne', hl, hls]

/-! ## 5. Attributes -/

/-- Whether two attributes, as they are gathered, differ at most in the case of their names. -/
def Regathered (a b : List Char × List Char) : Prop :=
  a.1.map Char.toLower = b.1.map Char.toLower ∧ a.2 = b.2

variable {begun begun' : Option (List Char × List Char)} {ls ls' : List ManifestLine}
  {as : List (List Char × List Char)}

theorem toList_regathered (h : Option.Rel Regathered begun begun') :
    List.Forall₂ Regathered begun.toList begun'.toList := by
  cases h with
  | none => exact .nil
  | some h => exact .cons h .nil

theorem gather_respells (hls : List.Forall₂ Respells ls ls')
    (hbegun : Option.Rel Regathered begun begun') :
    List.Forall₂ Regathered (gather begun ls) (gather begun' ls') := by
  induction hls generalizing begun begun' with
  | nil => exact toList_regathered hbegun
  | cons hl _ ih =>
      cases hl with
      | entry value h =>
          exact List.rel_append (toList_regathered hbegun) (ih (.some ⟨h, rfl⟩))
      | continuation more =>
          refine ih ?_
          cases hbegun with
          | none => exact .none
          | some h => exact .some ⟨h.1, congrArg (· ++ more) h.2⟩
      | misfit line => exact List.rel_append (toList_regathered hbegun) (ih .none)

theorem exists_toList_append {rest : List (List Char × List Char)}
    (h : List.Forall₂ Regathered (begun.toList ++ rest) as) :
    ∃ begun' rest', Option.Rel Regathered begun begun' ∧ List.Forall₂ Regathered rest rest'
      ∧ as = begun'.toList ++ rest' := by
  cases begun with
  | none => exact ⟨none, as, .none, h, rfl⟩
  | some a =>
      obtain ⟨b, rest', hb, hrest, rfl⟩ := List.forall₂_cons_left_iff.1 h
      exact ⟨some b, rest', .some hb, hrest, rfl⟩

/-- **The attributes of lines may be spelled in any letters.** The induction goes on with the
    attribute that has begun, whose name is in a line further in front. -/
theorem exists_gather (h : List.Forall₂ Regathered (gather begun ls) as) :
    ∃ begun' ls', Option.Rel Regathered begun begun' ∧ List.Forall₂ Respells ls ls'
      ∧ gather begun' ls' = as := by
  induction ls generalizing begun as with
  | nil =>
      rw [gather, ← List.append_nil begun.toList] at h
      obtain ⟨begun', _, hbegun, hrest, rfl⟩ := exists_toList_append h
      cases hrest
      exact ⟨begun', [], hbegun, .nil, (List.append_nil _).symm⟩
  | cons l ls ih =>
      cases l with
      | entry name value =>
          obtain ⟨begun', rest', hbegun, hrest, rfl⟩ := exists_toList_append h
          obtain ⟨_, ls', hentry, hls, rfl⟩ := ih hrest
          cases hentry with
          | @some _ b hb =>
              obtain ⟨name', value'⟩ := b
              obtain ⟨hname, rfl⟩ := hb
              exact ⟨begun', .entry name' value :: ls', hbegun, .cons (.entry value hname) hls, rfl⟩
      | continuation more =>
          obtain ⟨continued', ls', hcontinued, hls, rfl⟩ := ih h
          cases begun with
          | none =>
              cases hcontinued
              exact ⟨none, .continuation more :: ls', .none, .cons (.continuation more) hls, rfl⟩
          | some a =>
              cases hcontinued with
              | @some _ b hb =>
                  obtain ⟨name', _⟩ := b
                  obtain ⟨hname, rfl⟩ := hb
                  exact ⟨some (name', a.2), .continuation more :: ls', .some ⟨hname, rfl⟩,
                    .cons (.continuation more) hls, rfl⟩
      | misfit line =>
          obtain ⟨begun', rest', hbegun, hrest, rfl⟩ := exists_toList_append h
          obtain ⟨_, ls', hnone, hls, rfl⟩ := ih hrest
          cases hnone
          exact ⟨begun', .misfit line :: ls', hbegun, .cons (.misfit line) hls, rfl⟩

/-! ## 6. Attributes of texts -/

theorem respelled_ofList_iff {a b : List Char × List Char} :
    Respelled (String.ofList a.1, String.ofList a.2) (String.ofList b.1, String.ofList b.2) ↔
      Regathered a b := by
  rw [Respelled, folded, folded, String.toList_ofList, String.toList_ofList, String.ofList_inj]
  rfl

/-- **Texts that differ in the case of names have attributes that do so.** -/
theorem attributes_recased {text text' : String} (h : Recased text.toList text'.toList) :
    List.Forall₂ Respelled (attributes text) (attributes text') := by
  rw [attributes, attributes, List.forall₂_map_left_iff, List.forall₂_map_right_iff]
  exact (gather_respells (linesOf_recased h) .none).imp fun a b => respelled_ofList_iff.2

/-- **The attributes of a text may be spelled in any letters.** -/
theorem exists_recased {text : String} {bs : List (String × String)}
    (h : List.Forall₂ Respelled (attributes text) bs) :
    ∃ text' : String, Recased text.toList text'.toList ∧ attributes text' = bs := by
  rw [attributes, List.forall₂_map_left_iff] at h
  have hgather : List.Forall₂ Regathered (gather none (linesOf text.toList))
      (bs.map fun b => (b.1.toList, b.2.toList)) := by
    rw [List.forall₂_map_right_iff]
    refine h.imp fun a b hab => respelled_ofList_iff.1 ?_
    rwa [String.ofList_toList, String.ofList_toList]
  obtain ⟨_, ls, hnone, hls, hbs⟩ := exists_gather hgather
  cases hnone
  obtain ⟨text', hrecased, rfl⟩ := exists_recased_linesOf hls
  refine ⟨String.ofList text', by rwa [String.toList_ofList], ?_⟩
  rw [attributes_ofList, hbs, List.map_map]
  refine (List.map_congr_left fun b _ => ?_).trans (List.map_id bs)
  exact Prod.ext String.ofList_toList String.ofList_toList

/-- **The case of the names in a text does not matter for what is looked at in the value of an
    attribute exactly if the name has no letters or its values do not differ in it.** -/
theorem recased_iff {β : Type} (f : Option String → β) (text name : String) :
    (∀ text' : String, Recased text.toList text'.toList →
        f (attribute? (mainAttributes text') name) = f (attribute? (mainAttributes text) name)) ↔
      (∀ c ∈ name.toList, c.isAlpha = false) ∨
        ∀ v ∈ values (attributes text) name, ∀ w ∈ values (attributes text) name,
          f (some v) = f (some w) := by
  rw [← respelled_iff f (attributes text) name]
  constructor
  · intro h bs hbs
    obtain ⟨text', hrecased, rfl⟩ := exists_recased hbs
    exact h text' hrecased
  · exact fun h text' hrecased => h _ (attributes_recased hrecased)

/-! ## 7. Files that are listed -/

/-- The files that the value of an attribute lists. -/
def pathsOf (value : Option String) : List String :=
  value.elim [] fun value => (Blank.words value.toList).map fun name =>
    "META-INF/" ++ String.ofList name

theorem transformPaths_eq (text : String) :
    transformPaths text = pathsOf (attribute? (mainAttributes text) transformAttribute) := by
  rw [transformPaths]
  cases attribute? (mainAttributes text) transformAttribute <;> rfl

/-- Values list the same files exactly if they have the same words. -/
theorem pathsOf_eq_iff {v w : String} :
    pathsOf (some v) = pathsOf (some w) ↔ Blank.words v.toList = Blank.words w.toList := by
  refine (List.map_injective_iff.2 fun x y h => ?_).eq_iff
  have hlist := congrArg String.toList h
  rw [String.toList_append, String.toList_append] at hlist
  exact String.ofList_inj.1 (String.toList_inj.1 (List.append_cancel_left hlist))

/-- **The case of names matters only where an attribute is repeated.** The case of a name that is
    asked for never does. The case of the names in a text does not where an attribute is in one case
    throughout; it does not in any text that differs in nothing else exactly if the name has no
    letters or all values of the attribute are the same, and for the files that are listed exactly
    if all values list the same ones. -/
theorem attribute?_recased (text name : String) :
    (∀ name', folded name' = folded name →
        attribute? (mainAttributes text) name' = attribute? (mainAttributes text) name)
      ∧ (∀ text' : String, Recased text.toList text'.toList →
          SpelledAlike (attributes text) name → SpelledAlike (attributes text') name →
          attribute? (mainAttributes text') name = attribute? (mainAttributes text) name)
      ∧ ((∀ text' : String, Recased text.toList text'.toList →
            attribute? (mainAttributes text') name = attribute? (mainAttributes text) name) ↔
          (∀ c ∈ name.toList, c.isAlpha = false) ∨
            ∀ v ∈ values (attributes text) name, ∀ w ∈ values (attributes text) name, v = w)
      ∧ (∀ text' : String, Recased text.toList text'.toList →
          SpelledAlike (attributes text) transformAttribute →
          SpelledAlike (attributes text') transformAttribute →
          transformPaths text' = transformPaths text)
      ∧ ((∀ text' : String, Recased text.toList text'.toList →
            transformPaths text' = transformPaths text) ↔
          ∀ v ∈ values (attributes text) transformAttribute,
            ∀ w ∈ values (attributes text) transformAttribute,
              Blank.words v.toList = Blank.words w.toList) := by
  refine ⟨fun name' h => ?_, fun text' h ha hb => ?_, ?_, fun text' h ha hb => ?_, ?_⟩
  · rw [attribute?, attribute?, h]
  · exact attribute?_eq_of_spelledAlike (attributes_recased h) ha hb
  · simpa only [id, Option.some.injEq] using recased_iff id text name
  · rw [transformPaths_eq, transformPaths_eq]
    exact congrArg pathsOf (attribute?_eq_of_spelledAlike (attributes_recased h) ha hb)
  · have hletter : ¬∀ c ∈ transformAttribute.toList, c.isAlpha = false := fun h =>
      absurd (h 'F' List.mem_cons_self) (by decide)
    have hpaths := recased_iff pathsOf text transformAttribute
    rw [or_iff_right hletter] at hpaths
    simpa only [transformPaths_eq, pathsOf_eq_iff] using hpaths

/-- An attribute twice, in capital letters. -/
def inCapitals : String := "FMLAT: a\nFMLAT: b\n"

/-- The same in small letters. -/
def inSmallLetters : String := "fmlat: a\nfmlat: b\n"

/-- The same in capital letters first and in small ones then. -/
def inBoth : String := "FMLAT: a\nfmlat: b\n"

theorem recasedLine_transformAttribute (value : List Char) :
    RecasedLine ("FMLAT: ".toList ++ value) ("fmlat: ".toList ++ value) := by
  have hname : IsName "FMLAT".toList := by decide
  have hlower : "FMLAT".toList.map Char.toLower = "fmlat".toList.map Char.toLower := by decide
  exact .renamed value hname hlower

theorem recased_inSmallLetters : Recased inCapitals.toList inSmallLetters.toList :=
  .ended (by decide) (recasedLine_transformAttribute ['a'])
    (.ended (by decide) (recasedLine_transformAttribute ['b']) (recased_refl []))

theorem recased_inBoth : Recased inCapitals.toList inBoth.toList :=
  .ended (by decide) (.same "FMLAT: a".toList)
    (.ended (by decide) (recasedLine_transformAttribute ['b']) (recased_refl []))

theorem attribute?_recased_inSmallLetters :
    attribute? (mainAttributes inSmallLetters) "FMLAT" =
        attribute? (mainAttributes inCapitals) "FMLAT"
      ∧ transformPaths inSmallLetters = transformPaths inCapitals := by
  have hcapitals : SpelledAlike (attributes inCapitals) "FMLAT" := ⟨"FMLAT", by decide⟩
  have hsmall : SpelledAlike (attributes inSmallLetters) "FMLAT" := ⟨"fmlat", by decide⟩
  obtain ⟨-, hvalue, -, hpaths, -⟩ := attribute?_recased inCapitals "FMLAT"
  exact ⟨hvalue _ recased_inSmallLetters hcapitals hsmall,
    hpaths _ recased_inSmallLetters hcapitals hsmall⟩

theorem not_recased_all : ¬∀ text text' : String, Recased text.toList text'.toList →
    (∀ name name' : String, folded name' = folded name →
        attribute? (mainAttributes text') name' = attribute? (mainAttributes text) name)
      ∧ transformPaths text' = transformPaths text := by
  intro h
  have hvalue := (h inCapitals inBoth recased_inBoth).1 "FMLAT" "FMLAT" rfl
  have hcapitals : attribute? (mainAttributes inCapitals) "FMLAT" = some "b" := by decide
  have hboth : attribute? (mainAttributes inBoth) "FMLAT" = some "a" := by decide
  rw [hcapitals, hboth] at hvalue
  exact absurd hvalue (by decide)

end ClassAccess.Manifest
