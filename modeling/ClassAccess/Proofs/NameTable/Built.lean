import ClassAccess.NameTable
import ClassAccess.Proofs.Outcome
import Mathlib.Data.List.Basic

/-!
# Name tables that are built

A table starts without classes and grows by classes, fields and methods; what is refused changes
nothing.

* `NameTable.Built` -- the tables that come to be;
* `WellFormed`, `Built.wellFormed` -- **each has one name per namespace for everything**, and in no
  namespace do two classes share a name;
* `classNamed?_eq_some_iff` -- so a class is found exactly by its own names.
-/

namespace ClassAccess

/-! ## 1. What is found in a list -/

/-- Where no two elements pass, the one that passes is found. -/
theorem find?_eq_some_iff_of_pairwise {α : Type} {l : List α} {p : α → Bool} {a : α}
    (h : l.Pairwise fun a b => p a = true → p b ≠ true) :
    l.find? p = some a ↔ a ∈ l ∧ p a = true := by
  refine ⟨fun ha => ⟨List.mem_of_find?_eq_some ha, List.find?_some ha⟩, ?_⟩
  rintro ⟨hmem, hp⟩
  induction h with
  | nil => cases hmem
  | @cons b l hb _ ih =>
      rcases List.mem_cons.1 hmem with rfl | hl
      · exact List.find?_cons_of_pos hp
      · rw [List.find?_cons_of_neg fun hpb => hb a hl hpb hp]
        exact ih hl

/-- An element of a list with one element changed. -/
theorem mem_modify {α : Type} {l : List α} {i : Nat} {f : α → α} {a : α} (h : a ∈ l.modify i f) :
    a ∈ l ∨ ∃ b ∈ l, a = f b := by
  obtain ⟨j, hj⟩ := List.mem_iff_getElem?.1 h
  rw [List.getElem?_modify] at hj
  split at hj
  · obtain ⟨b, hb, rfl⟩ := Option.map_eq_some_iff.1 hj
    exact .inr ⟨b, List.mem_of_getElem? hb, rfl⟩
  · exact .inl (List.mem_of_getElem? (by simpa using hj))

namespace NameTable

/-! ## 2. Building -/

/-- **The tables that come to be.** -/
inductive Built : NameTable → Prop
  | ofNamespaces {namespaces : List String} {t : NameTable}
      (h : NameTable.ofNamespaces namespaces = .ok t) : Built t
  | addClass {t t' : NameTable} {names : List String} {index : Nat} (ht : Built t)
      (h : t.addClass names = .ok (index, t')) : Built t'
  | addField {t t' : NameTable} {index : Nat} {names : List String} (ht : Built t)
      (h : t.addField index names = .ok t') : Built t'
  | addMethod {t t' : NameTable} {index : Nat} {descriptor : String} {names : List String}
      (ht : Built t) (h : t.addMethod index descriptor names = .ok t') : Built t'

/-- Whether two classes have no name in common, in any namespace. -/
def NamesApart (names names' : List String) : Prop :=
  ∀ (i : Nat) (name : String), names[i]? = some name → names'[i]? = some name → name = ""

/-- Whether everything in a class has so many names. -/
structure Counted (n : Nat) (c : ClassNames) : Prop where
  names : c.names.length = n
  fields : ∀ f ∈ c.fields, f.length = n
  methods : ∀ m ∈ c.methods, m.names.length = n

/-- **One name per namespace for everything**, and no two classes of one name. -/
structure WellFormed (t : NameTable) : Prop where
  counted : ∀ c ∈ t.classes, Counted t.namespaces.length c
  apart : (t.classes.map ClassNames.names).Pairwise NamesApart

variable {t t' : NameTable} {names : List String} {index : Nat} {name : String} {i : Nat}
  {c : ClassNames}

theorem length_of_checkNames (h : t.checkNames names = .ok ()) :
    names.length = t.namespaces.length := by
  unfold checkNames at h
  split at h
  · assumption
  · cases h

theorem modifyClass_eq {f : ClassNames → ClassNames} (h : t.modifyClass index f = .ok t') :
    t' = { t with classes := t.classes.modify index f } := by
  unfold modifyClass at h
  split at h
  · cases h
    rfl
  · cases h

/-- A change of one class that keeps its names. -/
theorem WellFormed.modifyClass (ht : t.WellFormed) {f : ClassNames → ClassNames}
    (h : t.modifyClass index f = .ok t') (hnames : ∀ c, (f c).names = c.names)
    (hcounted : ∀ c, Counted t.namespaces.length c → Counted t.namespaces.length (f c)) :
    t'.WellFormed := by
  cases modifyClass_eq h
  have hmap : (t.classes.modify index f).map ClassNames.names =
      t.classes.map ClassNames.names := by
    refine List.ext_getElem? fun j => ?_
    rw [List.getElem?_map, List.getElem?_map, List.getElem?_modify]
    cases t.classes[j]? with
    | none => split <;> rfl
    | some c =>
        split
        · exact congrArg some (hnames c)
        · rfl
  refine ⟨fun c hc => ?_, by rw [hmap]; exact ht.apart⟩
  rcases mem_modify hc with hc | ⟨d, hd, rfl⟩
  · exact ht.counted c hc
  · exact hcounted d (ht.counted d hd)

/-! ## 3. Classes by their names -/

theorem classNamed?_some (h : t.classNamed? name i = some c) :
    c ∈ t.classes ∧ c.names[i]? = some name ∧ name ≠ "" := by
  unfold classNamed? at h
  split at h
  · cases h
  · rename_i hempty
    have hname := List.find?_some h
    exact ⟨List.mem_of_find?_eq_some h, eq_of_beq hname, fun he => hempty (by rw [he]; rfl)⟩

/-- **A class is found by its names**, and by no others. -/
theorem WellFormed.classNamed?_eq_some_iff (ht : t.WellFormed) :
    t.classNamed? name i = some c ↔ c ∈ t.classes ∧ c.names[i]? = some name ∧ name ≠ "" := by
  refine ⟨classNamed?_some, fun ⟨hc, hname, hne⟩ => ?_⟩
  have hempty : name.isEmpty = false := Bool.eq_false_iff.2 fun he =>
    hne (String.isEmpty_iff.1 he)
  unfold classNamed?
  rw [hempty, if_neg Bool.false_ne_true]
  refine (find?_eq_some_iff_of_pairwise ?_).2 ⟨hc, by rw [hname]; exact beq_self_eq_true _⟩
  refine (List.pairwise_map.1 ht.apart).imp fun hapart ha hb => hne ?_
  exact hapart i name (eq_of_beq ha) (eq_of_beq hb)

theorem classNamed?_eq_none (h : t.classNamed? name i = none) (hc : c ∈ t.classes)
    (hname : c.names[i]? = some name) : name = "" := by
  by_contra hne
  have hempty : name.isEmpty = false := Bool.eq_false_iff.2 fun he =>
    hne (String.isEmpty_iff.1 he)
  unfold classNamed? at h
  rw [hempty, if_neg Bool.false_ne_true, List.find?_eq_none] at h
  exact h c hc (by rw [hname]; exact beq_self_eq_true _)

/-- Names that are not taken are not found. -/
theorem classNamed?_of_taken?_eq_none {space : Nat} (h : t.taken? space names = none)
    (hname : names[i]? = some name) : t.classNamed? name (space + i) = none := by
  induction names generalizing space i with
  | nil => cases hname
  | cons head names ih =>
      rw [taken?] at h
      split at h
      · cases h
      · rename_i hnone
        cases i with
        | zero =>
            cases hname
            exact Option.not_isSome_iff_eq_none.1 hnone
        | succ i =>
            have hrest := ih h hname
            rwa [Nat.add_assoc, Nat.add_comm 1 i] at hrest

/-! ## 4. What is built is well-formed -/

theorem WellFormed.addClass (ht : t.WellFormed) (h : t.addClass names = .ok (index, t')) :
    t'.WellFormed := by
  obtain ⟨⟨⟩, hcheck, h⟩ := Outcome.exists_of_bind_ok h
  have hlength := length_of_checkNames hcheck
  split at h
  · cases h
  · rename_i hnone
    cases h
    refine ⟨fun c hc => ?_, ?_⟩
    · rcases List.mem_append.1 hc with hc | hc
      · exact ht.counted c hc
      · rw [List.mem_singleton.1 hc]
        exact ⟨hlength, fun f hf => absurd hf List.not_mem_nil,
          fun m hm => absurd hm List.not_mem_nil⟩
    · rw [List.map_append, List.pairwise_append]
      refine ⟨ht.apart, List.pairwise_singleton _ _,
        fun names' hnames' new hnew i name hi hi' => ?_⟩
      obtain ⟨c, hc, rfl⟩ := List.mem_map.1 hnames'
      rw [List.map_singleton, List.mem_singleton] at hnew
      subst hnew
      have hfree := classNamed?_of_taken?_eq_none hnone hi'
      rw [Nat.zero_add] at hfree
      exact classNamed?_eq_none hfree hc hi

theorem WellFormed.addField (ht : t.WellFormed) (h : t.addField index names = .ok t') :
    t'.WellFormed := by
  obtain ⟨⟨⟩, hcheck, h⟩ := Outcome.exists_of_bind_ok h
  refine ht.modifyClass h (fun _ => rfl) fun c hc => ⟨hc.names, fun f hf => ?_, hc.methods⟩
  rcases List.mem_append.1 hf with hf | hf
  · exact hc.fields f hf
  · rw [List.mem_singleton.1 hf]
    exact length_of_checkNames hcheck

theorem WellFormed.addMethod (ht : t.WellFormed) {descriptor : String}
    (h : t.addMethod index descriptor names = .ok t') : t'.WellFormed := by
  obtain ⟨⟨⟩, hcheck, h⟩ := Outcome.exists_of_bind_ok h
  refine ht.modifyClass h (fun _ => rfl) fun c hc => ⟨hc.names, hc.fields, fun m hm => ?_⟩
  rcases List.mem_append.1 hm with hm | hm
  · exact hc.methods m hm
  · rw [List.mem_singleton.1 hm]
    exact length_of_checkNames hcheck

theorem wellFormed_of_ofNamespaces {namespaces : List String}
    (h : ofNamespaces namespaces = .ok t) : t.WellFormed := by
  unfold ofNamespaces at h
  split at h
  · cases h
  · split at h
    · cases h
    · cases h
      exact ⟨fun c hc => absurd hc List.not_mem_nil, .nil⟩

/-- **What is built is well-formed.** -/
theorem Built.wellFormed (h : t.Built) : t.WellFormed := by
  induction h with
  | ofNamespaces h => exact wellFormed_of_ofNamespaces h
  | addClass _ h ih => exact ih.addClass h
  | addField _ h ih => exact ih.addField h
  | addMethod _ h ih => exact ih.addMethod h

end NameTable

end ClassAccess
