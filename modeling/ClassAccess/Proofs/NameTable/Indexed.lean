import ClassAccess.NameTable.Indexed
import ClassAccess.Proofs.NameTable.Resolution

/-!
# Indexes that tell the truth

An index of a table is kept beside the classes. Does it always find the class that has the name, and
nothing else, even after additions that failed half-way?

* `IndexedTable.Exact` -- **the indexes tell the numbers of the classes by their names**;
* `checkFree_eq`, `enter_ok` -- nothing is changed before everything is checked, and then every name
  gets the number of its class;
* `Exact.make_comes` -- one addition: it keeps this, or fails and **leaves the table as it was**;
* `Answers` -- a table with indexes answers as one without them;
* `run_names` -- after any additions, **the names of the classes are one-to-one**.
-/

namespace ClassAccess

open Outcome

open NameTable (nameIn? nameIn?_eq_some_iff)

/-- In a well-formed table a name is that of one class. -/
theorem NameTable.WellFormed.unique {t : NameTable} (h : t.WellFormed) {space i j : Nat}
    {name : String} {c c' : ClassNames} (hi : t.classes[i]? = some c)
    (hj : t.classes[j]? = some c') (hc : nameIn? c.names space = some name)
    (hc' : nameIn? c'.names space = some name) : i = j := by
  rw [nameIn?_eq_some_iff] at hc hc'
  obtain ⟨hlt, rfl⟩ := List.getElem?_eq_some_iff.1 hi
  obtain ⟨hlt', rfl⟩ := List.getElem?_eq_some_iff.1 hj
  have hapart := List.pairwise_iff_getElem.1 (List.pairwise_map.1 h.apart)
  rcases Nat.lt_trichotomy i j with hij | hij | hij
  · exact absurd (hapart i j hlt hlt' hij space name hc.2 hc'.2) hc.1
  · exact hij
  · exact absurd (hapart j i hlt' hlt hij space name hc'.2 hc.2) hc.1

namespace IndexedTable

variable {t t' : IndexedTable} {name : String} {space number : Nat} {names : List String}

/-! ## 1. Looking up by an index -/

/-- **The indexes tell the numbers of the classes by their names**, and nothing else. -/
structure Exact (t : IndexedTable) : Prop where
  built : t.toNameTable.Built
  spaces : t.index.length = t.namespaces.length
  number : ∀ name space number, t.number? name space = some number ↔
    ∃ c, t.classes[number]? = some c ∧ nameIn? c.names space = some name

/-- A class is found by its names, by the index as without it. -/
theorem Exact.classNamed?_eq (h : t.Exact) (name : String) (space : Nat) :
    t.classNamed? name space = t.toNameTable.classNamed? name space := by
  refine Option.ext fun c => ?_
  rw [h.built.wellFormed.classNamed?_eq_some_iff]
  unfold classNamed?
  simp only [Option.bind_eq_bind, Option.bind_eq_some_iff, h.number, nameIn?_eq_some_iff]
  constructor
  · rintro ⟨number, ⟨c', hc', hne, hname⟩, hc⟩
    rw [hc'] at hc
    cases hc
    exact ⟨List.mem_of_getElem? hc', hname, hne⟩
  · rintro ⟨hmem, hname, hne⟩
    obtain ⟨number, hc⟩ := List.mem_iff_getElem?.1 hmem
    exact ⟨number, ⟨c, hc, hne, hname⟩, hc⟩

theorem Exact.className?_eq (h : t.Exact) (name : String) (source target : Nat) :
    t.className? name source target = t.toNameTable.className? name source target := by
  unfold className? NameTable.className?
  rw [h.classNamed?_eq]

theorem Exact.descriptorIn_eq (h : t.Exact) (descriptor : String) (space : Nat) :
    t.descriptorIn descriptor space = t.toNameTable.descriptorIn descriptor space := by
  unfold descriptorIn NameTable.descriptorIn
  simp only [h.className?_eq]

theorem Exact.fieldName?_eq (h : t.Exact) (owner name : String) (source target : Nat) :
    t.fieldName? owner name source target =
      t.toNameTable.fieldName? owner name source target := by
  unfold fieldName? NameTable.fieldName?
  rw [h.classNamed?_eq]

theorem Exact.methodName?_eq (h : t.Exact) (owner name descriptor : String)
    (source target : Nat) : t.methodName? owner name descriptor source target =
      t.toNameTable.methodName? owner name descriptor source target := by
  unfold methodName? NameTable.methodName?
  simp only [h.classNamed?_eq, h.descriptorIn_eq]

/-- A name has a number exactly if a class has the name. -/
theorem Exact.isSome_number? (h : t.Exact) (name : String) (space : Nat) :
    (!name.isEmpty && (t.number? name space).isSome) =
      (t.toNameTable.classNamed? name space).isSome := by
  rw [Bool.eq_iff_iff, Bool.and_eq_true, Option.isSome_iff_exists, Option.isSome_iff_exists]
  simp only [h.number, h.built.wellFormed.classNamed?_eq_some_iff, nameIn?_eq_some_iff]
  constructor
  · rintro ⟨-, number, c, hc, hne, hname⟩
    exact ⟨c, List.mem_of_getElem? hc, hname, hne⟩
  · rintro ⟨c, hmem, hname, hne⟩
    obtain ⟨number, hc⟩ := List.mem_iff_getElem?.1 hmem
    refine ⟨?_, number, c, hc, hne, hname⟩
    rw [Bool.not_eq_true', Bool.eq_false_iff]
    exact fun he => hne (String.isEmpty_iff.1 he)

/-! ## 2. Steps of an addition -/

theorem checkNames_ok (h : t.toNameTable.checkNames names = .ok ()) :
    checkNames names t = .ok () t := by
  unfold checkNames
  rw [h]

theorem checkNames_error {fault : NameFault} (h : t.toNameTable.checkNames names = .error fault) :
    checkNames names t = .error fault t := by
  unfold checkNames
  rw [h]

/-- **All names are checked before anything is changed.** -/
theorem Exact.checkFree_eq (h : t.Exact) (space : Nat) (names : List String) :
    checkFree space names t = match t.toNameTable.taken? space names with
      | some (_, name) => .error (.duplicateClass name) t
      | none => .ok () t := by
  induction names generalizing space with
  | nil => rfl
  | cons name rest ih =>
      have hget : (get : Growing IndexedTable) t = .ok t t := rfl
      rw [checkFree, bind_of_ok hget, h.isSome_number?, NameTable.taken?]
      by_cases hsome : (t.toNameTable.classNamed? name space).isSome = true
      · rw [if_pos hsome, if_pos hsome]
        rfl
      · rw [if_neg hsome, if_neg hsome]
        exact ih (space + 1)

theorem number?_modify (hspace : space < t.index.length) (name : String) (number : Nat)
    (other : String) (i : Nat) :
    number? { t with index := t.index.modify space (·.insert name number) } other i =
      if i = space ∧ other = name then some number else t.number? other i := by
  have hget : (t.index.modify space (·.insert name number))[i]? =
      t.index[i]?.map fun listing => if space = i then listing.insert name number else listing := by
    rw [List.getElem?_modify]
    rfl
  unfold number?
  simp only [hget, Option.bind_eq_bind, Option.bind_map]
  by_cases hi : space = i
  · subst hi
    rw [List.getElem?_eq_getElem hspace, Option.bind_some, Option.bind_some]
    simp only [Function.comp, if_true, true_and, Listing.insert]
    by_cases hname : other = name
    · rw [if_pos hname, hname, Listing.get?_update_self]
    · rw [if_neg hname, Listing.get?_update_of_ne _ _ hname]
  · rw [if_neg fun he => hi he.1.symm]
    simp only [Function.comp_def, if_neg hi]

/-- The first of some names is that of the first namespace. -/
theorem nameIn?_cons_iff {rest : List String} {other : String} {i : Nat} :
    (space ≤ i ∧ nameIn? (name :: rest) (i - space) = some other) ↔
      (i = space ∧ other = name ∧ name.isEmpty = false) ∨
        (space + 1 ≤ i ∧ nameIn? rest (i - (space + 1)) = some other) := by
  rcases Nat.lt_trichotomy i space with h | rfl | h
  · exact iff_of_false (fun he => absurd he.1 (by omega)) fun he => by omega
  · rw [Nat.sub_self, or_iff_left fun he => absurd he.1 (by omega), nameIn?_eq_some_iff]
    rw [List.getElem?_cons_zero, Option.some.injEq, ← Bool.not_eq_true, String.isEmpty_iff]
    constructor
    · rintro ⟨-, hne, rfl⟩
      exact ⟨rfl, rfl, hne⟩
    · rintro ⟨-, rfl, hne⟩
      exact ⟨Nat.le_refl _, hne, rfl⟩
  · obtain ⟨k, rfl⟩ : ∃ k, i = space + 1 + k := ⟨i - (space + 1), by omega⟩
    rw [or_iff_right fun he => absurd he.1 (by omega), Nat.add_sub_cancel_left,
      show space + 1 + k - space = k + 1 by omega]
    exact and_congr_left' (iff_of_true (by omega) (by omega))

/-- **Every name gets the number**, each in the index of its namespace, and nothing else changes. -/
theorem enter_ok (number space : Nat) (names : List String)
    (hspaces : space + names.length ≤ t.index.length) :
    ∃ t', enter number space names t = .ok () t' ∧ t'.toNameTable = t.toNameTable ∧
      t'.index.length = t.index.length ∧ ∀ other i, t'.number? other i =
        if space ≤ i ∧ nameIn? names (i - space) = some other then some number
        else t.number? other i := by
  induction names generalizing space t with
  | nil => exact ⟨t, rfl, rfl, rfl, fun other i => (if_neg fun h => nomatch h.2).symm⟩
  | cons name rest ih =>
      rw [List.length_cons] at hspaces
      simp only [nameIn?_cons_iff]
      cases hempty : name.isEmpty with
      | true =>
          obtain ⟨t', hrun, hrest⟩ := ih (t := t) (space + 1) (by omega)
          refine ⟨t', ?_, ?_⟩
          · rw [enter, hempty]
            exact hrun
          · simpa only [Bool.true_eq_false, and_false, false_or] using hrest
      | false =>
          let t₁ : IndexedTable :=
            { t with index := t.index.modify space (·.insert name number) }
          have hlength : t₁.index.length = t.index.length := List.length_modify _ _ _
          obtain ⟨t', hrun, htable, hspaces', hnumber⟩ := ih (t := t₁) (space + 1) (by omega)
          refine ⟨t', ?_, htable, hspaces'.trans hlength, fun other i => ?_⟩
          · rw [enter, hempty]
            exact hrun
          · rw [hnumber, number?_modify (by omega)]
            by_cases hrest : space + 1 ≤ i ∧ nameIn? rest (i - (space + 1)) = some other
            · rw [if_pos hrest, if_pos (.inr hrest)]
            · rw [if_neg hrest]
              simp only [or_iff_left hrest, and_true]

/-! ## 3. Additions -/

/-- The indexes of a table to which a class was added. -/
theorem Exact.push (h : t.Exact) (names : List String) (htable : t'.toNameTable.Built)
    (hclasses : t'.classes = t.classes ++ [⟨names, [], []⟩])
    (hspaces : t'.index.length = t'.namespaces.length)
    (hnumber : ∀ other i, t'.number? other i =
      if nameIn? names i = some other then some t.classes.length else t.number? other i) :
    t'.Exact := by
  have hlast : t'.classes[t.classes.length]? = some ⟨names, [], []⟩ := by
    rw [hclasses, List.getElem?_concat_length]
  refine ⟨htable, hspaces, fun other i number => ?_⟩
  rw [hnumber]
  split
  · rename_i hname
    constructor
    · rintro hn
      cases hn
      exact ⟨_, hlast, hname⟩
    · rintro ⟨c, hc, hname'⟩
      rw [htable.wellFormed.unique hlast hc hname hname']
  · rename_i hname
    rw [h.number, hclasses]
    constructor
    · rintro ⟨c, hc, hname'⟩
      refine ⟨c, ?_, hname'⟩
      rw [List.getElem?_append_left (List.getElem?_eq_some_iff.1 hc).1, hc]
    · rintro ⟨c, hc, hname'⟩
      rcases Nat.lt_or_ge number t.classes.length with hlt | hge
      · rw [List.getElem?_append_left hlt] at hc
        exact ⟨c, hc, hname'⟩
      · rw [List.getElem?_append_right hge] at hc
        rw [List.mem_singleton.1 (List.mem_of_getElem? hc)] at hname'
        exact absurd hname' hname

/-- What an addition to a table comes to: the same as without indexes, and the indexes stay exact;
    or a fault, and the table is left as it was. -/
def Comes {α : Type} (t : IndexedTable) (step : Growing α) (added : List (List String))
    (without : Except NameFault NameTable) : Prop :=
  (∃ a t', step t = .ok a t' ∧ t'.Exact ∧ without = .ok t'.toNameTable ∧
    t'.classes.map ClassNames.names = t.classes.map ClassNames.names ++ added) ∨
      ∃ fault, step t = .error fault t ∧ without = .error fault

/-- **A class is added, or nothing is changed.** -/
theorem Exact.addClass_comes (h : t.Exact) (names : List String) :
    t.Comes (addClass names) [names] (Prod.snd <$> t.toNameTable.addClass names) := by
  unfold addClass
  cases hcheck : t.toNameTable.checkNames names with
  | error fault =>
      refine .inr ⟨fault, bind_of_error (checkNames_error hcheck), ?_⟩
      unfold NameTable.addClass
      rw [hcheck]
      rfl
  | ok _ =>
      have hlength := NameTable.length_of_checkNames hcheck
      have hfree := h.checkFree_eq 0 names
      unfold Comes
      rw [bind_of_ok (checkNames_ok hcheck)]
      cases htaken : t.toNameTable.taken? 0 names with
      | some found =>
          rw [htaken] at hfree
          refine .inr ⟨_, bind_of_error hfree, ?_⟩
          unfold NameTable.addClass
          rw [hcheck, htaken]
          rfl
      | none =>
          rw [htaken] at hfree
          have hget : (get : Growing IndexedTable) t = .ok t t := rfl
          have hadd : t.toNameTable.addClass names = .ok (t.classes.length,
              { t.toNameTable with classes := t.classes ++ [{ names }] }) := by
            unfold NameTable.addClass
            rw [hcheck, htaken]
            rfl
          obtain ⟨t₁, hrun, htable, hspaces, hnumber⟩ :=
            enter_ok (t := t) t.classes.length 0 names (by rw [h.spaces, hlength]; omega)
          rw [bind_of_ok hfree, bind_of_ok hget, bind_of_ok hrun]
          refine .inl ⟨_, { t₁ with classes := t₁.classes ++ [{ names }] }, rfl, ?_, ?_, ?_⟩
          · refine h.push names ?_ ?_ ?_ fun other i => ?_
            · rw [htable]
              exact h.built.addClass hadd
            · rw [htable]
            · rw [htable]
              exact hspaces.trans h.spaces
            · have hindex := hnumber other i
              simp only [Nat.zero_le, true_and, Nat.sub_zero] at hindex
              exact hindex
          · rw [hadd, htable]
            rfl
          · rw [htable, List.map_append]
            rfl

/-- A class of a table in which one class was changed that keeps its names. -/
theorem names_modify {f : ClassNames → ClassNames} (hnames : ∀ c, (f c).names = c.names)
    (classes : List ClassNames) (number i : Nat) :
    (classes.modify number f)[i]?.map ClassNames.names = classes[i]?.map ClassNames.names := by
  rw [List.getElem?_modify]
  cases classes[i]? with
  | none => rfl
  | some c =>
      show some (if number = i then f c else c).names = some c.names
      split
      · rw [hnames]
      · rfl

/-- **A member is added, or nothing is changed.** -/
theorem Exact.addMember_comes (h : t.Exact) {f : ClassNames → ClassNames}
    (hnames : ∀ c, (f c).names = c.names)
    (hbuilt : ∀ table, (do
      t.toNameTable.checkNames names
      t.toNameTable.modifyClass number f) = .ok table → table.Built) :
    t.Comes (do checkNames names; modifyClass number f) [] (do
      t.toNameTable.checkNames names
      t.toNameTable.modifyClass number f) := by
  unfold Comes
  cases hcheck : t.toNameTable.checkNames names with
  | error fault => exact .inr ⟨fault, bind_of_error (checkNames_error hcheck), rfl⟩
  | ok _ =>
      rw [hcheck] at hbuilt
      rw [bind_of_ok (checkNames_ok hcheck)]
      by_cases hlt : number < t.classes.length
      · have hmodify : t.toNameTable.modifyClass number f =
            .ok { t.toNameTable with classes := t.classes.modify number f } := if_pos hlt
        have hset : t.classes.set number (f t.classes[number]) = t.classes.modify number f := by
          rw [List.modify_eq_set_getElem?, List.getElem?_eq_getElem hlt]
          rfl
        refine .inl ⟨(), { t with classes := t.classes.modify number f }, ?_, ?_, hmodify, ?_⟩
        · unfold modifyClass
          rw [List.getElem?_eq_getElem hlt, ← hset]
        · refine ⟨hbuilt _ hmodify, h.spaces, fun other i k => ?_⟩
          have hk := names_modify hnames t.classes number k
          refine (h.number other i k).trans ?_
          constructor
          · rintro ⟨c, hc, hname⟩
            rw [hc] at hk
            obtain ⟨c', hc', hsame⟩ := Option.map_eq_some_iff.1 hk
            exact ⟨c', hc', hsame ▸ hname⟩
          · rintro ⟨c, hc, hname⟩
            rw [show (t.classes.modify number f)[k]? = some c from hc] at hk
            obtain ⟨c', hc', hsame⟩ := Option.map_eq_some_iff.1 hk.symm
            exact ⟨c', hc', hsame ▸ hname⟩
        · rw [List.append_nil]
          refine List.ext_getElem? fun i => ?_
          rw [List.getElem?_map, List.getElem?_map]
          exact names_modify hnames t.classes number i
      · refine .inr ⟨.unknownClass number, ?_, if_neg hlt⟩
        unfold modifyClass
        rw [List.getElem?_eq_none (Nat.not_lt.1 hlt)]

/-- **One addition**: it comes to the same as without indexes, and the indexes stay exact; or it
    fails, and the table is left as it was. -/
theorem Exact.make_comes (h : t.Exact) (a : Addition) :
    t.Comes a.make a.names?.toList (a.grow t.toNameTable) := by
  cases a with
  | ofClass names =>
      rcases h.addClass_comes names with ⟨_, t', hrun, hrest⟩ | ⟨fault, hrun, hfault⟩
      · exact .inl ⟨(), t', bind_of_ok hrun, hrest⟩
      · exact .inr ⟨fault, bind_of_error hrun, hfault⟩
  | ofField number names =>
      exact h.addMember_comes (fun _ => rfl) fun _ hadd => h.built.addField hadd
  | ofMethod number descriptor names =>
      exact h.addMember_comes (fun _ => rfl) fun _ hadd => h.built.addMethod hadd

/-! ## 4. Tables that come to be -/

theorem exact_of_ofNamespaces {namespaces : List String} (h : ofNamespaces namespaces = .ok t) :
    t.Exact ∧ t.classes = [] := by
  obtain ⟨table, htable, h⟩ := exists_of_bind_ok h
  cases h
  have hparts : table.namespaces = namespaces ∧ table.classes = [] := by
    unfold NameTable.ofNamespaces at htable
    split at htable
    · cases htable
    · split at htable
      · cases htable
      · cases htable
        exact ⟨rfl, rfl⟩
  refine ⟨⟨.ofNamespaces htable, ?_, fun name space number => ?_⟩, hparts.2⟩
  · show (namespaces.map _).length = table.namespaces.length
    rw [hparts.1, List.length_map]
  · refine iff_of_false (fun hn => ?_) fun ⟨c, hc, _⟩ => ?_
    · obtain ⟨listing, hlisting, hn⟩ := Option.bind_eq_some_iff.1 hn
      obtain ⟨_, -, rfl⟩ := List.mem_map.1 (List.mem_of_getElem? hlisting)
      cases hn
    · rw [hparts.2] at hc
      cases hc

/-- **Any additions**, failing or not: the indexes stay exact, and the classes are those that were
    there and those that were added. -/
theorem Exact.run (h : t.Exact) (additions : List Addition) :
    (run additions t).2.Exact ∧ (run additions t).2.classes.map ClassNames.names =
      t.classes.map ClassNames.names ++ (run additions t).1 := by
  induction additions generalizing t with
  | nil => exact ⟨h, (List.append_nil _).symm⟩
  | cons a additions ih =>
      unfold IndexedTable.run
      rcases h.make_comes a with ⟨_, t', hmake, ht', -, hclasses⟩ | ⟨fault, hmake, -⟩
      · obtain ⟨hexact, hnames⟩ := ih ht'
        rw [hmake]
        refine ⟨hexact, ?_⟩
        rw [hnames, hclasses, List.append_assoc]
      · rw [hmake]
        exact ih h

/-- A table with indexes answers as a table without them, whatever it is asked, and what is added to
    the one and to the other comes to the same. -/
structure Answers (t : IndexedTable) (table : NameTable) : Prop where
  className : ∀ name i j, t.className? name i j = table.className? name i j
  fieldName : ∀ owner name i j, t.fieldName? owner name i j = table.fieldName? owner name i j
  methodName : ∀ owner name descriptor i j,
    t.methodName? owner name descriptor i j = table.methodName? owner name descriptor i j
  make : ∀ a : Addition, a.grow table = match a.make t with
    | .ok _ t' => .ok t'.toNameTable
    | .error fault _ => .error fault

theorem Exact.answers (h : t.Exact) : t.Answers t.toNameTable := by
  refine ⟨h.className?_eq, h.fieldName?_eq, h.methodName?_eq, fun a => ?_⟩
  rcases h.make_comes a with ⟨_, t', hmake, -, hgrow, -⟩ | ⟨fault, hmake, hgrow⟩
  · rw [hmake, hgrow]
  · rw [hmake, hgrow]

/-- A name is found in a class that has both names. -/
theorem Exact.className?_eq_some_iff (h : t.Exact) {new : String} {i j : Nat} :
    t.className? name i j = some new ↔ ∃ names ∈ t.classes.map ClassNames.names,
      nameIn? names i = some name ∧ nameIn? names j = some new := by
  rw [h.className?_eq]
  unfold NameTable.className?
  simp only [Option.bind_eq_bind, Option.bind_eq_some_iff,
    h.built.wellFormed.classNamed?_eq_some_iff, nameIn?_eq_some_iff]
  constructor
  · rintro ⟨c, ⟨hc, hname, hne⟩, hnew⟩
    exact ⟨c.names, List.mem_map_of_mem hc, ⟨hne, hname⟩, hnew⟩
  · rintro ⟨names, hmem, ⟨hne, hname⟩, hnew⟩
    obtain ⟨c, hc, rfl⟩ := List.mem_map.1 hmem
    exact ⟨c, ⟨hc, hname, hne⟩, hnew⟩

/-- **The names of classes are one-to-one between any two namespaces**, after any additions, failing
    or not. A name is found exactly if a class that was added has it, and what is found is what this
    class is called; there is no other class of that name, in any namespace, so that going back
    finds the first name. An addition that fails leaves the table as it was, with its indexes, and
    so whatever it tells. -/
theorem run_names {namespaces : List String} {start : IndexedTable}
    (h : ofNamespaces namespaces = .ok start) (additions : List Addition) :
    let added := (run additions start).1
    let t := (run additions start).2
    t.classes.map ClassNames.names = added ∧
      (∀ name i j new, t.className? name i j = some new ↔
        ∃ names ∈ added, nameIn? names i = some name ∧ nameIn? names j = some new) ∧
      (∀ (i : Nat) name (m n : Nat) names names', added[m]? = some names → added[n]? = some names' →
        nameIn? names i = some name → nameIn? names' i = some name → m = n) ∧
      (∀ name i j new, t.className? name i j = some new → t.className? new j i = some name) ∧
      (∀ (a : Addition) fault t', a.make t = .error fault t' → t' = t) ∧
      t.toNameTable.Built ∧ t.Answers t.toNameTable := by
  intro added t
  obtain ⟨hstart, hempty⟩ := exact_of_ofNamespaces h
  obtain ⟨ht, hnames⟩ := hstart.run additions
  rw [hempty, List.map_nil, List.nil_append] at hnames
  change t.Exact at ht
  change t.classes.map ClassNames.names = added at hnames
  have hfound : ∀ name i j new, t.className? name i j = some new ↔
      ∃ names ∈ added, nameIn? names i = some name ∧ nameIn? names j = some new := fun _ _ _ _ => by
    rw [← hnames]
    exact ht.className?_eq_some_iff
  refine ⟨hnames, hfound, fun i name m n names names' hm hn hi hi' => ?_,
    fun name i j new hnew => ?_, fun a fault t' hfault => ?_, ht.built, ht.answers⟩
  · rw [← hnames, List.getElem?_map] at hm hn
    obtain ⟨c, hc, rfl⟩ := Option.map_eq_some_iff.1 hm
    obtain ⟨c', hc', rfl⟩ := Option.map_eq_some_iff.1 hn
    exact ht.built.wellFormed.unique hc hc' hi hi'
  · obtain ⟨names, hmem, hi, hj⟩ := (hfound name i j new).1 hnew
    exact (hfound new j i name).2 ⟨names, hmem, hj, hi⟩
  · rcases ht.make_comes a with ⟨_, t'', hmake, -⟩ | ⟨_, hmake, -⟩
    · rw [hmake] at hfault
      cases hfault
    · rw [hmake] at hfault
      cases hfault
      rfl

/-- Of these additions the second one fails in the last namespace, the third one has too few names,
    and the fourth one is for no class. -/
theorem run_names_taken : ∃ start, ofNamespaces ["obf", "named"] = .ok start ∧
    (run [.ofClass ["a", "Foo"], .ofClass ["b", "Foo"], .ofClass ["c"], .ofField 7 ["d", "count"],
      .ofClass ["b", ""]] start).1 = [["a", "Foo"], ["b", ""]] ∧
    (run [.ofClass ["a", "Foo"], .ofClass ["b", "Foo"], .ofClass ["c"], .ofField 7 ["d", "count"],
      .ofClass ["b", ""]] start).2.className? "Foo" 1 0 = some "a" := by
  obtain ⟨start, hstart⟩ : ∃ start, ofNamespaces ["obf", "named"] = .ok start := ⟨_, rfl⟩
  have hadded : (run [.ofClass ["a", "Foo"], .ofClass ["b", "Foo"], .ofClass ["c"],
      .ofField 7 ["d", "count"], .ofClass ["b", ""]] start).1 = [["a", "Foo"], ["b", ""]] := by
    cases hstart
    decide +kernel
  refine ⟨start, hstart, hadded, ?_⟩
  obtain ⟨-, hfound, -⟩ := run_names hstart [.ofClass ["a", "Foo"], .ofClass ["b", "Foo"],
    .ofClass ["c"], .ofField 7 ["d", "count"], .ofClass ["b", ""]]
  refine (hfound "Foo" 1 0 "a").2 ⟨["a", "Foo"], ?_, by decide, by decide⟩
  rw [hadded]
  exact List.mem_cons_self

end IndexedTable

end ClassAccess
