import ClassAccess.Proofs.Manifest.Lines
import Mathlib

/-!
# Attributes by their names

Attributes are stored under their names as these are spelled, and found by names whose case does not
matter. Of several that differ in case only, the one whose spelling comes first in order is found.

* `attribute?_eq_some_iff` -- **the value that is found is the last one under the least spelling**;
* `attribute?_of_spelledAlike` -- where an attribute is spelled in one way only, its last value;
* `Respelled`, `attribute?_eq_of_spelledAlike` -- the case of names does not matter, as long as each
  occurrence of an attribute is spelled as the others are;
* `exists_respelled_of_mem` -- **every value of a repeated attribute counts in some spelling**;
* `respelled_iff` -- so the case of names does not matter exactly if the values do not differ.
-/

namespace ClassAccess

/-! ## 1. What a listing holds -/

namespace Listing

variable {κ ν : Type} [Ord κ] {k : κ} {v : ν}

theorem find?_eq_none_iff [Std.LawfulEqOrd κ] {entries : List (κ × ν)} :
    find? k entries = none ↔ ∀ e ∈ entries, e.1 ≠ k := by
  induction entries with
  | nil => exact iff_of_true rfl (List.forall_mem_nil _)
  | cons e entries ih =>
      rw [find?, List.forall_mem_cons]
      split
      · rename_i hk
        exact iff_of_false (Option.some_ne_none _) fun h =>
          h.1 (Std.LawfulEqCmp.eq_of_compare hk).symm
      · rename_i hk
        have hne : e.1 ≠ k := fun he => hk (he ▸ Std.ReflCmp.compare_self)
        rw [ih, and_iff_right hne]

/-- The first entry under a key is found. -/
theorem find?_eq_some_iff [Std.LawfulEqOrd κ] {entries : List (κ × ν)} : find? k entries = some v ↔
    ∃ before after, entries = before ++ (k, v) :: after ∧ ∀ e ∈ before, e.1 ≠ k := by
  constructor
  · intro h
    induction entries with
    | nil => cases h
    | cons e entries ih =>
        rw [find?] at h
        split at h
        · rename_i hk
          obtain rfl := Std.LawfulEqCmp.eq_of_compare hk
          obtain rfl := Option.some.inj h
          exact ⟨[], entries, rfl, List.forall_mem_nil _⟩
        · rename_i hk
          have hne : e.1 ≠ k := fun he => hk (he ▸ Std.ReflCmp.compare_self)
          obtain ⟨before, after, rfl, hbefore⟩ := ih h
          exact ⟨e :: before, after, rfl, List.forall_mem_cons.2 ⟨hne, hbefore⟩⟩
  · rintro ⟨before, after, rfl, h⟩
    induction before with
    | nil => rw [List.nil_append, find?, if_pos Std.ReflCmp.compare_self]
    | cons e before ih =>
        obtain ⟨he, hbefore⟩ := List.forall_mem_cons.1 h
        rw [List.cons_append, find?, if_neg fun hk => he (Std.LawfulEqCmp.eq_of_compare hk).symm,
          ih hbefore]

variable [Std.TransOrd κ] [Std.LawfulEqOrd κ] {entries : List (κ × ν)}

/-- **A listing holds under each key the last value.** -/
theorem mem_entries_ofList_iff : (k, v) ∈ (ofList entries).entries ↔
    ∃ before after, entries = before ++ (k, v) :: after ∧ ∀ e ∈ after, e.1 ≠ k := by
  rw [mem_entries_iff, get?_ofList, find?_eq_some_iff]
  constructor
  · rintro ⟨before, after, h, hbefore⟩
    refine ⟨after.reverse, before.reverse, ?_, fun e he => hbefore e (List.mem_reverse.1 he)⟩
    rw [← entries.reverse_reverse, h, List.reverse_append, List.reverse_cons, List.append_assoc,
      List.singleton_append]
  · rintro ⟨before, after, rfl, hafter⟩
    refine ⟨after.reverse, before.reverse, ?_, fun e he => hafter e (List.mem_reverse.1 he)⟩
    rw [List.reverse_append, List.reverse_cons, List.append_assoc, List.singleton_append]

/-- Each key has its place. -/
theorem exists_mem_entries_ofList {e : κ × ν} (h : e ∈ entries) :
    ∃ v, (e.1, v) ∈ (ofList entries).entries := by
  have hsome : find? e.1 entries.reverse ≠ none := fun hnone =>
    find?_eq_none_iff.1 hnone e (List.mem_reverse.2 h) rfl
  obtain ⟨v, hv⟩ := Option.ne_none_iff_exists'.1 hsome
  exact ⟨v, mem_entries_iff.2 ((get?_ofList entries e.1).trans hv)⟩

end Listing

namespace Manifest

open Listing

variable {as bs : List (String × String)} {name value : String}

/-! ## 2. The value that counts -/

/-- The occurrences of an attribute, however they are spelled. -/
def occurrences (as : List (String × String)) (name : String) : List (String × String) :=
  as.filter fun e => folded e.1 = folded name

/-- The values of an attribute, in order. -/
def values (as : List (String × String)) (name : String) : List String :=
  (occurrences as name).map Prod.snd

/-- Whether a value is the last one under the spelling of a name that comes first in order. -/
def Counts (as : List (String × String)) (name value : String) : Prop :=
  ∃ spelling before after, as = before ++ (spelling, value) :: after
    ∧ folded spelling = folded name ∧ (∀ e ∈ after, e.1 ≠ spelling)
    ∧ ∀ e ∈ occurrences as name, spelling ≤ e.1

theorem mem_occurrences {e : String × String} :
    e ∈ occurrences as name ↔ e ∈ as ∧ folded e.1 = folded name := by
  rw [occurrences, List.mem_filter, decide_eq_true_iff]

theorem compare_eq_lt_iff {a b : String} : compare a b = .lt ↔ a < b := compareOfLessAndEq_eq_lt

/-- A value that counts is one of the attribute. -/
theorem Counts.exists_spelling (h : Counts as name value) :
    ∃ spelling, (spelling, value) ∈ occurrences as name
      ∧ (spelling, value) ∈ (ofList as).entries
      ∧ ∀ e ∈ occurrences as name, spelling ≤ e.1 := by
  obtain ⟨s, before, after, has, hs, hafter, hleast⟩ := h
  exact ⟨s, mem_occurrences.2 ⟨has ▸ List.mem_append_cons_self, hs⟩,
    mem_entries_ofList_iff.2 ⟨before, after, has, hafter⟩, hleast⟩

/-- The least spelling has one last value only. -/
theorem Counts.unique {value' : String} (h : Counts as name value) (h' : Counts as name value') :
    value = value' := by
  obtain ⟨s, hs, hmem, hleast⟩ := h.exists_spelling
  obtain ⟨s', hs', hmem', hleast'⟩ := h'.exists_spelling
  obtain rfl := le_antisymm (hleast _ hs') (hleast' _ hs)
  exact Option.some.inj ((mem_entries_iff.1 hmem).symm.trans (mem_entries_iff.1 hmem'))

theorem attribute?_eq_none_iff : attribute? (ofList as) name = none ↔ values as name = [] := by
  rw [attribute?, Option.map_eq_none_iff, List.find?_eq_none, values, List.map_eq_nil_iff,
    occurrences, List.filter_eq_nil_iff]
  constructor
  · intro h e he hfold
    obtain ⟨v, hv⟩ := exists_mem_entries_ofList he
    exact h (e.1, v) hv hfold
  · intro h e he hfold
    obtain ⟨before, after, has, -⟩ := mem_entries_ofList_iff.1 he
    exact h e (has ▸ List.mem_append_cons_self) hfold

theorem counts_of_attribute? (h : attribute? (ofList as) name = some value) :
    Counts as name value := by
  obtain ⟨⟨s, v⟩, hfind, rfl⟩ := Option.map_eq_some_iff.1 h
  obtain ⟨hs, front, back, hentries, hfront⟩ := List.find?_eq_some_iff_append.1 hfind
  have hmem : (s, v) ∈ (ofList as).entries := hentries ▸ List.mem_append_cons_self
  obtain ⟨before, after, has, hafter⟩ := mem_entries_ofList_iff.1 hmem
  refine ⟨s, before, after, has, of_decide_eq_true hs, hafter, fun e he => ?_⟩
  obtain ⟨he, hfold⟩ := mem_occurrences.1 he
  obtain ⟨w, hw⟩ := exists_mem_entries_ofList he
  -- what stands in front of the entry that is found has another name, and what stands behind it a
  -- greater one
  rw [hentries, List.mem_append, List.mem_cons] at hw
  rcases hw with hw | hw | hw
  · have hne := hfront _ hw
    rw [Bool.not_eq_true', decide_eq_false_iff_not] at hne
    exact absurd hfold hne
  · exact le_of_eq (congrArg Prod.fst hw).symm
  · have hascending := (ofList as).ascending
    rw [hentries] at hascending
    exact (compare_eq_lt_iff.1
      ((List.pairwise_cons.1 (List.pairwise_append.1 hascending).2.1).1 _ hw)).le

/-- **The value that is found is the last one under the least spelling.** -/
theorem attribute?_eq_some_iff :
    attribute? (ofList as) name = some value ↔ Counts as name value := by
  refine ⟨counts_of_attribute?, fun h => ?_⟩
  cases hfound : attribute? (ofList as) name with
  | none =>
      obtain ⟨s, hs, -⟩ := h.exists_spelling
      have hmem : value ∈ values as name := List.mem_map_of_mem hs
      exact absurd hmem (attribute?_eq_none_iff.1 hfound ▸ List.not_mem_nil)
  | some v => rw [h.unique (counts_of_attribute? hfound)]

theorem mem_values_of_attribute? (h : attribute? (ofList as) name = some value) :
    value ∈ values as name := by
  obtain ⟨s, hs, -⟩ := (counts_of_attribute? h).exists_spelling
  exact List.mem_map_of_mem hs

/-! ## 3. One spelling -/

/-- Whether all occurrences of an attribute are spelled in the same way. -/
def SpelledAlike (as : List (String × String)) (name : String) : Prop :=
  ∃ spelling, ∀ e ∈ occurrences as name, e.1 = spelling

/-- **Of an attribute that is spelled in one way the last value counts.** -/
theorem attribute?_of_spelledAlike (h : SpelledAlike as name) :
    attribute? (ofList as) name = (values as name).getLast? := by
  obtain ⟨spelling, halike⟩ := h
  cases hlast : (values as name).getLast? with
  | none => exact attribute?_eq_none_iff.2 (List.getLast?_eq_none_iff.1 hlast)
  | some v =>
      rw [values, List.getLast?_map] at hlast
      obtain ⟨e, he, rfl⟩ := Option.map_eq_some_iff.1 hlast
      obtain ⟨front, hfront⟩ := List.getLast?_eq_some_iff.1 he
      obtain ⟨l, l', rfl, -, hl'⟩ := List.filter_eq_append_iff.1 hfront
      obtain ⟨between, after, rfl, -, hfold, hafter⟩ := List.filter_eq_cons_iff.1 hl'
      rw [← List.append_assoc] at halike ⊢
      have hspelling : e.1 = spelling :=
        halike e (mem_occurrences.2 ⟨List.mem_append_cons_self, of_decide_eq_true hfold⟩)
      refine attribute?_eq_some_iff.2 ⟨e.1, l ++ between, after, rfl, of_decide_eq_true hfold,
        fun e' he' heq => ?_, fun e' he' => le_of_eq (hspelling.trans (halike e' he').symm)⟩
      exact List.filter_eq_nil_iff.1 hafter e' he' (heq ▸ hfold)

/-! ## 4. Other spellings -/

/-- Whether two attributes differ at most in the case of their names. -/
def Respelled (a b : String × String) : Prop := folded a.1 = folded b.1 ∧ a.2 = b.2

/-- The values of an attribute do not depend on how it is spelled. -/
theorem values_respelled (h : List.Forall₂ Respelled as bs) (name : String) :
    values bs name = values as name := by
  induction h with
  | nil => rfl
  | @cons a b as bs hab _ ih =>
      rw [values, values, occurrences, occurrences, List.filter_cons, List.filter_cons, hab.1]
      split
      · rw [List.map_cons, List.map_cons, hab.2]
        exact congrArg _ ih
      · exact ih

/-- **The case of a name does not matter where it is one case throughout.** -/
theorem attribute?_eq_of_spelledAlike (h : List.Forall₂ Respelled as bs) (ha : SpelledAlike as name)
    (hb : SpelledAlike bs name) :
    attribute? (ofList bs) name = attribute? (ofList as) name := by
  rw [attribute?_of_spelledAlike ha, attribute?_of_spelledAlike hb, values_respelled h]

/-! ## 5. The spelling in capital letters -/

theorem folded_toLower (name : String) : folded name.toLower = folded name := by
  rw [folded, String.toLower, String.toList_map, List.map_map, folded]
  exact List.map_congr_left fun c _ => Char.toLower_toLower_eq_toLower c

theorem folded_toUpper (name : String) : folded name.toUpper = folded name := by
  rw [folded, String.toUpper, String.toList_map, List.map_map, folded]
  exact List.map_congr_left fun c _ => Char.toLower_toUpper_eq_toLower c

theorem toUpper_le (c : Char) : c.toUpper ≤ c := by
  unfold Char.toUpper
  split
  · rename_i h
    have hlower : 97 ≤ c.val.toNat := UInt32.le_iff_toNat_le.1 h.1
    have hval : (c.val + ('A'.val - 'a'.val)).toNat = (c.val.toNat + (2 ^ 32 - 32)) % 2 ^ 32 :=
      UInt32.toNat_add c.val _
    refine Char.le_def.2 (UInt32.le_iff_toNat_le.2 ?_)
    show (c.val + ('A'.val - 'a'.val)).toNat ≤ c.val.toNat
    have hbound : c.val.toNat < 2 ^ 32 := UInt32.toNat_lt c.val
    omega
  · exact le_refl c

theorem not_lt_map_toUpper (l : List Char) : ¬l < l.map Char.toUpper := by
  induction l with
  | nil => exact List.not_lt_nil _
  | cons c l ih =>
      rw [List.map_cons, List.cons_lt_cons_iff, not_or]
      exact ⟨not_lt.2 (toUpper_le c), fun h => ih h.2⟩

/-- **Capital letters come first**, so the spelling in capital letters is the least. -/
theorem toUpper_le_of_folded_eq {spelling : String} (h : folded spelling = folded name) :
    name.toUpper ≤ spelling := by
  have hupper : name.toUpper.toList = spelling.toList.map Char.toUpper := by
    have hcongr := congrArg (List.map Char.toUpper) h
    rw [folded, folded, List.map_map, List.map_map] at hcongr
    have hcomp : Char.toUpper ∘ Char.toLower = Char.toUpper :=
      funext Char.toUpper_toLower_eq_toUpper
    rw [String.toUpper, String.toList_map, ← hcomp, hcongr]
  rw [← not_lt, String.lt_iff_toList_lt, hupper]
  exact not_lt_map_toUpper _

/-- A name with letters is not the same in capital letters as another one in small letters. -/
theorem toLower_ne_toUpper (h : ∃ c ∈ name.toList, c.isAlpha) (other : String) :
    other.toLower ≠ name.toUpper := by
  obtain ⟨c, hc, halpha⟩ := h
  intro heq
  have hmem : c.toUpper ∈ other.toLower.toList := by
    rw [heq, String.toUpper, String.toList_map]
    exact List.mem_map_of_mem hc
  rw [String.toLower, String.toList_map] at hmem
  obtain ⟨d, -, hd⟩ := List.mem_map.1 hmem
  have hupper := Char.isUpper_toUpper_eq_isAlpha c
  rw [← hd, Char.isUpper_toLower_eq_false, halpha] at hupper
  cases hupper

/-- **Every value of a repeated attribute counts in some spelling**: in that of its occurrence in
    capital letters and of all others in small ones. -/
theorem exists_respelled_of_mem (halpha : ∃ c ∈ name.toList, c.isAlpha)
    (h : value ∈ values as name) :
    ∃ bs, List.Forall₂ Respelled as bs ∧ attribute? (ofList bs) name = some value := by
  obtain ⟨e, he, rfl⟩ := List.mem_map.1 h
  obtain ⟨hmem, hfold⟩ := mem_occurrences.1 he
  obtain ⟨before, after, rfl⟩ := List.append_of_mem hmem
  have hlower (l : List (String × String)) :
      List.Forall₂ Respelled l (l.map fun a => (a.1.toLower, a.2)) := by
    rw [List.forall₂_map_right_iff, List.forall₂_same]
    exact fun a _ => ⟨(folded_toLower a.1).symm, rfl⟩
  refine ⟨before.map (fun a => (a.1.toLower, a.2)) ++ (name.toUpper, e.2) ::
    after.map fun a => (a.1.toLower, a.2), ?_, attribute?_eq_some_iff.2 ⟨name.toUpper, _, _, rfl,
      folded_toUpper name, fun b hb => ?_, fun b hb =>
        toUpper_le_of_folded_eq (mem_occurrences.1 hb).2⟩⟩
  · exact List.rel_append (hlower before)
      (.cons ⟨hfold.trans (folded_toUpper name).symm, rfl⟩ (hlower after))
  · obtain ⟨a, -, rfl⟩ := List.mem_map.1 hb
    exact toLower_ne_toUpper halpha a.1

theorem toLower_eq_iff {c d : Char} (hd : d.isAlpha = false) : c.toLower = d ↔ c = d := by
  have hupper (c : Char) (hc : c.isAlpha = false) : c.toLower = c := by
    refine Char.toLower_eq_of_not_isUpper fun h => ?_
    rw [Char.isAlpha, h, Bool.true_or] at hc
    cases hc
  constructor
  · intro h
    rw [← hupper c ?_, h]
    rw [← Char.isAlpha_toLower_eq_isAlpha, h, hd]
  · rintro rfl
    exact hupper c hd

/-- A name without letters has one spelling only. -/
theorem spelledAlike_of_not_isAlpha (h : ∀ c ∈ name.toList, c.isAlpha = false)
    (as : List (String × String)) : SpelledAlike as name := by
  refine ⟨name, fun e he => String.toList_inj.1 ?_⟩
  have hfold : folded e.1 = folded name := (mem_occurrences.1 he).2
  unfold folded at hfold
  generalize e.1.toList = l at hfold
  generalize name.toList = m at h hfold
  induction m generalizing l with
  | nil => exact List.map_eq_nil_iff.1 hfold
  | cons d m ih =>
      obtain ⟨c, l, rfl, hc, hl⟩ := List.map_eq_cons_iff.1 hfold
      obtain ⟨hd, hm⟩ := List.forall_mem_cons.1 h
      rw [(toLower_eq_iff hd).2 rfl, toLower_eq_iff hd] at hc
      rw [hc, ih l hm hl]

/-- **The case of names does not matter for what is looked at in the value of an attribute exactly
    if its name has no letters or its values do not differ in it.** -/
theorem respelled_iff {β : Type} (f : Option String → β) (as : List (String × String))
    (name : String) :
    (∀ bs, List.Forall₂ Respelled as bs →
        f (attribute? (ofList bs) name) = f (attribute? (ofList as) name)) ↔
      (∀ c ∈ name.toList, c.isAlpha = false) ∨
        ∀ v ∈ values as name, ∀ w ∈ values as name, f (some v) = f (some w) := by
  constructor
  · intro h
    by_cases halpha : ∀ c ∈ name.toList, c.isAlpha = false
    · exact .inl halpha
    refine .inr fun v hv w hw => ?_
    have hletter : ∃ c ∈ name.toList, c.isAlpha := by
      obtain ⟨c, hc, hne⟩ := not_forall₂.1 halpha
      exact ⟨c, hc, Bool.eq_true_of_not_eq_false hne⟩
    obtain ⟨bs, hbs, hv⟩ := exists_respelled_of_mem hletter hv
    obtain ⟨cs, hcs, hw⟩ := exists_respelled_of_mem hletter hw
    rw [← hv, ← hw, h bs hbs, h cs hcs]
  · rintro (halpha | hvalues) bs hbs
    · rw [attribute?_eq_of_spelledAlike hbs (spelledAlike_of_not_isAlpha halpha as)
        (spelledAlike_of_not_isAlpha halpha bs)]
    · have hsame := values_respelled hbs name
      cases ha : attribute? (ofList as) name with
      | none =>
          rw [attribute?_eq_none_iff.2 (hsame.trans (attribute?_eq_none_iff.1 ha))]
      | some v =>
          cases hb : attribute? (ofList bs) name with
          | none =>
              rw [attribute?_eq_none_iff, hsame, ← attribute?_eq_none_iff, ha] at hb
              cases hb
          | some w =>
              exact hvalues w (hsame ▸ mem_values_of_attribute? hb) v (mem_values_of_attribute? ha)

end Manifest

end ClassAccess
