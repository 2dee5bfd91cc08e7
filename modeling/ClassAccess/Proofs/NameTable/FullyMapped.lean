import ClassAccess.Proofs.Descriptor.Renaming
import ClassAccess.Proofs.NameTable.Built
import ClassAccess.TransformSet.Renaming

/-!
# Fully mapped tables

In a fully mapped table everything has a name in every namespace, and names are not mistaken for
each other. There a name of one namespace becomes the same name of a third one, whether it is looked
up at once or in a second namespace in between.

* `NameTable.FullyMapped` -- such tables;
* `NameTable.Settled`, `NameTable.SettledTarget` -- names that the table knows in a namespace, or
  does not mistake for others in the other namespaces;
* `className_className`, `descriptor_descriptor`, `target_target` -- **classes, descriptors and
  targets by way of a second namespace**;
* `descriptor_injective` -- descriptors that are told apart in the first namespace are told apart
  in any other one.
-/

namespace ClassAccess.NameTable

/-! ## 1. Tables and names -/

/-- Whether a name is that of a class in a namespace, or of no class in any namespace. -/
def Settled (t : NameTable) (i : Nat) (name : String) : Prop :=
  t.classNamed? name i = none → ∀ j, t.classNamed? name j = none

/-- **Whether everything in a table has a name in every namespace**, and within a class fields are
    told apart by their names, methods by their names and descriptors. -/
structure FullyMapped (t : NameTable) : Prop where
  classes : ∀ c ∈ t.classes, ∀ name ∈ c.names, name ≠ "" ∧ ';' ∉ name.toList
  fields : ∀ c ∈ t.classes, ∀ f ∈ c.fields, "" ∉ f
  methods : ∀ c ∈ t.classes, ∀ m ∈ c.methods, "" ∉ m.names
  fieldsApart : ∀ c ∈ t.classes, c.fields.Pairwise fun f g =>
    ∀ i < t.namespaces.length, f[i]? ≠ g[i]?
  methodsApart : ∀ c ∈ t.classes, c.methods.Pairwise fun m n =>
    m.descriptor = n.descriptor → ∀ i < t.namespaces.length, m.names[i]? ≠ n.names[i]?
  descriptors : ∀ c ∈ t.classes, ∀ m ∈ c.methods, ∀ name ∈ Descriptor.names m.descriptor,
    t.Settled 0 name

/-- Whether a target of a class is one that the table has in a namespace, or is not mistaken for
    another one in the other namespaces; and so are the names that come with it. -/
def SettledTarget (t : NameTable) (i : Nat) (owner : String) : Target → Prop
  | .field name => t.Settled i owner ∧ ∀ c, t.classNamed? owner i = some c →
      (∀ f ∈ c.fields, f[i]? ≠ some name) → ∀ j : Nat, ∀ f ∈ c.fields, f[j]? ≠ some name
  | .method m => t.Settled i owner ∧ (∀ name ∈ Descriptor.names m.descriptor, t.Settled i name) ∧
      ∀ c, t.classNamed? owner i = some c →
        (∀ n ∈ c.methods, n.names[i]? = some m.name →
          t.descriptorIn n.descriptor i ≠ m.descriptor) →
        ∀ j : Nat, ∀ n ∈ c.methods, n.names[j]? = some m.name →
          t.descriptorIn n.descriptor j ≠ t.descriptor i j m.descriptor
  | _ => t.Settled i owner

variable {t : NameTable} {i j k : Nat} {name owner : String} {c : ClassNames} {target : Target}

theorem SettledTarget.settled (h : t.SettledTarget i owner target) : t.Settled i owner := by
  cases target with
  | self | allFields | allMethods => exact h
  | field | method => exact h.1

/-! ## 2. Classes -/

theorem nameIn?_of_ne_empty {names : List String} (h : names[i]? = some name) (hne : name ≠ "") :
    nameIn? names i = some name := by
  have hempty : name.isEmpty = false := Bool.eq_false_iff.2 fun he =>
    hne (String.isEmpty_iff.1 he)
  unfold nameIn?
  rw [h, Option.filter_some, hempty]
  rfl

/-- What is named everywhere has a name in each namespace. -/
theorem exists_name {names : List String} (hne : "" ∉ names) (hi : i < names.length) :
    ∃ name, names[i]? = some name ∧ name ≠ "" :=
  ⟨names[i], List.getElem?_eq_getElem hi, fun he => hne (he ▸ List.getElem_mem hi)⟩

theorem className_of_none (h : t.classNamed? name i = none) : t.className i j name = name := by
  unfold className className?
  rw [h]
  rfl

theorem className_of_some (h : t.classNamed? name i = some c) {name' : String}
    (hname : c.names[j]? = some name') (hne : name' ≠ "") : t.className i j name = name' := by
  unfold className className?
  rw [h, Option.bind_eq_bind, Option.bind_some, nameIn?_of_ne_empty hname hne, Option.getD_some]

theorem className_self (t : NameTable) (i : Nat) (name : String) : t.className i i name = name := by
  cases h : t.classNamed? name i with
  | none => exact className_of_none h
  | some c =>
      obtain ⟨-, hname, hne⟩ := classNamed?_some h
      exact className_of_some h hname hne

variable (ht : t.WellFormed) (hfull : t.FullyMapped)

include ht hfull

/-- A class that is found in one namespace has a name in every other one, and is found there. -/
theorem classNamed?_some_className (h : t.classNamed? name i = some c)
    (hj : j < t.namespaces.length) :
    c.names[j]? = some (t.className i j name) ∧
      t.classNamed? (t.className i j name) j = some c := by
  obtain ⟨hc, -, -⟩ := classNamed?_some h
  obtain ⟨name', hname, hne⟩ := exists_name (fun he => (hfull.classes c hc _ he).1 rfl)
    ((ht.counted c hc).names ▸ hj)
  rw [className_of_some h hname hne]
  exact ⟨hname, ht.classNamed?_eq_some_iff.2 ⟨hc, hname, hne⟩⟩

/-- A class is found by the name it has in another namespace, and so is what is no class. -/
theorem classNamed?_className (h : t.Settled i name) (hj : j < t.namespaces.length) :
    t.classNamed? (t.className i j name) j = t.classNamed? name i := by
  cases hc : t.classNamed? name i with
  | none => rw [className_of_none hc, h hc j]
  | some c => exact (classNamed?_some_className ht hfull hc hj).2

/-- **The name of a class, by way of a second namespace.** -/
theorem className_className (h : t.Settled i name) (hj : j < t.namespaces.length)
    (hk : k < t.namespaces.length) :
    t.className j k (t.className i j name) = t.className i k name := by
  have hfound := classNamed?_className ht hfull h hj
  cases hc : t.classNamed? name i with
  | none =>
      rw [hc] at hfound
      rw [className_of_none hfound, className_of_none hc, className_of_none hc]
  | some c =>
      rw [hc] at hfound
      have hname := (classNamed?_some_className ht hfull hfound hk).1
      have hname' := (classNamed?_some_className ht hfull hc hk).1
      exact Option.some.inj (hname.symm.trans hname')

/-! ## 3. Descriptors -/

omit ht hfull in
theorem renamed_className? (t : NameTable) (i j : Nat) :
    Descriptor.renamed (fun name => t.className? name i j) = t.className i j := rfl

omit ht hfull in
theorem descriptor_self (t : NameTable) (i : Nat) (d : String) : t.descriptor i i d = d :=
  Descriptor.rename_of_forall fun name _ => className_self t i name

omit ht hfull in
theorem descriptorIn_eq (t : NameTable) (d : String) (i : Nat) :
    t.descriptorIn d i = t.descriptor 0 i d := by
  unfold descriptorIn
  split
  · rename_i h
    rw [h, descriptor_self]
  · rfl

omit ht in
/-- No new name has a semicolon. -/
theorem not_mem_of_className? {new : String} (h : t.className? name i j = some new) :
    ';' ∉ new.toList := by
  unfold className? at h
  rw [Option.bind_eq_bind, Option.bind_eq_some_iff] at h
  obtain ⟨c, hc, hnew⟩ := h
  obtain ⟨hmem, -, -⟩ := classNamed?_some hc
  unfold nameIn? at hnew
  rw [Option.filter_eq_some_iff] at hnew
  exact (hfull.classes c hmem new (List.mem_of_getElem? hnew.1)).2

/-- **A descriptor, by way of a second namespace.** -/
theorem descriptor_descriptor {d : String} (h : ∀ name ∈ Descriptor.names d, t.Settled i name)
    (hj : j < t.namespaces.length) (hk : k < t.namespaces.length) :
    t.descriptor j k (t.descriptor i j d) = t.descriptor i k d := by
  unfold descriptor
  rw [Descriptor.rename_rename fun name new hnew => not_mem_of_className? hfull hnew]
  refine Descriptor.rename_congr fun name hname => ?_
  rw [renamed_className?, renamed_className?, renamed_className?]
  exact className_className ht hfull (h name hname) hj hk

/-- **Descriptors that are told apart in the first namespace are told apart in any other one.** -/
theorem descriptor_injective {d d' : String} (h : ∀ name ∈ Descriptor.names d, t.Settled 0 name)
    (h' : ∀ name ∈ Descriptor.names d', t.Settled 0 name) (hj : j < t.namespaces.length)
    (heq : t.descriptor 0 j d = t.descriptor 0 j d') : d = d' := by
  have h0 := Nat.zero_lt_of_lt hj
  calc d = t.descriptor 0 0 d := (descriptor_self t 0 d).symm
    _ = t.descriptor j 0 (t.descriptor 0 j d) := (descriptor_descriptor ht hfull h hj h0).symm
    _ = t.descriptor j 0 (t.descriptor 0 j d') := by rw [heq]
    _ = t.descriptor 0 0 d' := descriptor_descriptor ht hfull h' hj h0
    _ = d' := descriptor_self t 0 d'

/-! ## 4. Members -/

/-- The name in a namespace of the member that passes, or the same name. -/
def memberName {α : Type} (members : List α) (names : α → List String) (p : α → Bool) (i : Nat)
    (name : String) : String :=
  ((members.find? p).bind fun a => nameIn? (names a) i).getD name

omit ht hfull in
/-- **A member found by `p` in one namespace and by `q`, with its name there, in another one** has
    the name of a third one that it has at once; and what is no member is none there either. -/
theorem memberName_memberName {α : Type} {members : List α} {names : α → List String}
    {p : α → Bool} {q : String → α → Bool}
    (hnone : members.find? p = none → members.find? (q name) = none)
    (hsome : ∀ a, members.find? p = some a → "" ∉ names a ∧ j < (names a).length ∧
      k < (names a).length ∧ ∀ name', (names a)[j]? = some name' →
        members.find? (q name') = some a) :
    memberName members names (q (memberName members names p j name)) k
      (memberName members names p j name) = memberName members names p k name := by
  unfold memberName
  cases h : members.find? p with
  | none => simp only [Option.bind_none, Option.getD_none, hnone h]
  | some a =>
      obtain ⟨hne, hj, hk, hfound⟩ := hsome a h
      obtain ⟨name', hname', hne'⟩ := exists_name hne hj
      obtain ⟨name'', hname'', hne''⟩ := exists_name hne hk
      simp only [Option.bind_some, nameIn?_of_ne_empty hname' hne', Option.getD_some,
        hfound name' hname', nameIn?_of_ne_empty hname'' hne'']

omit ht hfull in
/-- In its own namespace a member stays. -/
theorem memberName_self {α : Type} {members : List α} {names : α → List String} {p : α → Bool}
    (hp : ∀ a, p a = true → (names a)[i]? = some name) :
    memberName members names p i name = name := by
  unfold memberName
  cases h : members.find? p with
  | none => rfl
  | some a =>
      rw [Option.bind_some, nameIn?, hp a (List.find?_some h), Option.filter_some]
      split <;> rfl

/-! ## 5. Fields -/

omit ht hfull in
theorem target_field_of_none (h : t.classNamed? owner i = none) (name : String) (j : Nat) :
    t.target i j owner (.field name) = .field name := by
  unfold target fieldName?
  rw [h]
  rfl

omit ht hfull in
/-- A field in another namespace. -/
theorem target_field_of_some (h : t.classNamed? owner i = some c) (name : String) (j : Nat) :
    t.target i j owner (.field name) =
      .field (memberName c.fields id (fun f => f[i]? == some name) j name) := by
  unfold target fieldName?
  rw [h]
  rfl

omit ht in
/-- A field is found by its name. -/
theorem find?_field_eq_some_iff (hc : c ∈ t.classes) (hi : i < t.namespaces.length)
    {f : List String} : c.fields.find? (fun f => f[i]? == some name) = some f ↔
      f ∈ c.fields ∧ f[i]? = some name := by
  rw [find?_eq_some_iff_of_pairwise, beq_iff_eq]
  refine (hfull.fieldsApart c hc).imp fun hapart ha hb => hapart i hi ?_
  rw [eq_of_beq ha, eq_of_beq hb]

/-- **A field, by way of a second namespace.** -/
theorem target_target_field (h : t.SettledTarget i owner (.field name))
    (hj : j < t.namespaces.length) (hk : k < t.namespaces.length) :
    t.target j k (t.className i j owner) (t.target i j owner (.field name)) =
      t.target i k owner (.field name) := by
  obtain ⟨howner, hfields⟩ := h
  have hfound := classNamed?_className ht hfull howner hj
  cases hc : t.classNamed? owner i with
  | none =>
      rw [hc] at hfound
      rw [target_field_of_none hc, target_field_of_none hc, target_field_of_none hfound]
  | some c =>
      rw [hc] at hfound
      obtain ⟨hmem, -, -⟩ := classNamed?_some hc
      rw [target_field_of_some hc, target_field_of_some hc, target_field_of_some hfound]
      refine congrArg Target.field (memberName_memberName (q := fun name f => f[j]? == some name)
        (fun hnone => ?_) fun f hf => ?_)
      · -- what the class does not have in this namespace, it has in none
        rw [List.find?_eq_none] at hnone ⊢
        refine fun f hf he => hfields c hc (fun g hg he => hnone g hg ?_) j f hf (eq_of_beq he)
        rw [he, beq_self_eq_true]
      · have hfmem := List.mem_of_find?_eq_some hf
        have hlength := (ht.counted c hmem).fields f hfmem
        exact ⟨hfull.fields c hmem f hfmem, hj.trans_eq hlength.symm, hk.trans_eq hlength.symm,
          fun name' hname' => (find?_field_eq_some_iff hfull hmem hj).2 ⟨hfmem, hname'⟩⟩

/-! ## 6. Methods -/

omit ht hfull in
theorem target_method_of_none (h : t.classNamed? owner i = none) (m : Signature) (j : Nat) :
    t.target i j owner (.method m) = .method ⟨m.name, t.descriptor i j m.descriptor⟩ := by
  unfold target methodName?
  rw [h]
  rfl

/-- Whether a method has a name and a descriptor in a namespace. -/
def isMethod (t : NameTable) (i : Nat) (name d : String) (m : MethodNames) : Bool :=
  m.names[i]? == some name && t.descriptorIn m.descriptor i == d

omit ht hfull in
theorem isMethod_iff {m : MethodNames} {d : String} :
    t.isMethod i name d m = true ↔ m.names[i]? = some name ∧ t.descriptorIn m.descriptor i = d := by
  unfold isMethod
  rw [Bool.and_eq_true, beq_iff_eq, beq_iff_eq]

omit ht hfull in
/-- A method in another namespace. -/
theorem target_method_of_some (h : t.classNamed? owner i = some c) (m : Signature) (j : Nat) :
    t.target i j owner (.method m) =
      .method ⟨memberName c.methods MethodNames.names (t.isMethod i m.name m.descriptor) j m.name,
        t.descriptor i j m.descriptor⟩ := by
  unfold target methodName?
  rw [h]
  rfl

/-- A method is found by its name and its descriptor. -/
theorem find?_method_eq_some_iff (hc : c ∈ t.classes) (hi : i < t.namespaces.length) {d : String}
    {m : MethodNames} : c.methods.find? (t.isMethod i name d) = some m ↔
      m ∈ c.methods ∧ m.names[i]? = some name ∧ t.descriptorIn m.descriptor i = d := by
  rw [find?_eq_some_iff_of_pairwise, isMethod_iff]
  refine List.pairwise_iff_forall_sublist.2 fun {a b} hab ha hb => ?_
  obtain ⟨hname, hd⟩ := isMethod_iff.1 ha
  obtain ⟨hname', hd'⟩ := isMethod_iff.1 hb
  have ha' := hfull.descriptors c hc a (hab.subset List.mem_cons_self)
  have hb' := hfull.descriptors c hc b (hab.subset (List.mem_cons_of_mem _ List.mem_cons_self))
  have hapart := List.pairwise_iff_forall_sublist.1 (hfull.methodsApart c hc) hab
  refine hapart (descriptor_injective ht hfull ha' hb' hi ?_) i hi (hname.trans hname'.symm)
  rw [← descriptorIn_eq, ← descriptorIn_eq, hd, hd']

/-- **A method, by way of a second namespace.** -/
theorem target_target_method {m : Signature} (h : t.SettledTarget i owner (.method m))
    (hj : j < t.namespaces.length) (hk : k < t.namespaces.length) :
    t.target j k (t.className i j owner) (t.target i j owner (.method m)) =
      t.target i k owner (.method m) := by
  obtain ⟨howner, hnames, hmethods⟩ := h
  have hfound := classNamed?_className ht hfull howner hj
  have hdescriptor := descriptor_descriptor ht hfull hnames hj hk
  cases hc : t.classNamed? owner i with
  | none =>
      rw [hc] at hfound
      rw [target_method_of_none hc, target_method_of_none hc, target_method_of_none hfound,
        hdescriptor]
  | some c =>
      rw [hc] at hfound
      obtain ⟨hmem, -, -⟩ := classNamed?_some hc
      rw [target_method_of_some hc, target_method_of_some hc, target_method_of_some hfound,
        hdescriptor]
      refine congrArg (fun name => Target.method ⟨name, t.descriptor i k m.descriptor⟩)
        (memberName_memberName (q := fun name => t.isMethod j name (t.descriptor i j m.descriptor))
          (fun hnone => ?_) fun n hn => ?_)
      · -- what the class does not have in this namespace, it has in none
        rw [List.find?_eq_none] at hnone ⊢
        intro n hn he
        obtain ⟨hname, hd⟩ := isMethod_iff.1 he
        exact hmethods c hc (fun n hn hname hd => hnone n hn (isMethod_iff.2 ⟨hname, hd⟩)) j n hn
          hname hd
      · obtain ⟨hname, hd⟩ := isMethod_iff.1 (List.find?_some hn)
        have hnmem := List.mem_of_find?_eq_some hn
        have hlength := (ht.counted c hmem).methods n hnmem
        have hi := (List.getElem?_eq_some_iff.1 hname).1.trans_eq hlength
        -- the stored descriptor is the same, whichever way it came to the second namespace
        have hstored : t.descriptorIn n.descriptor j = t.descriptor i j m.descriptor := by
          rw [← hd, descriptorIn_eq, descriptorIn_eq,
            descriptor_descriptor ht hfull (hfull.descriptors c hmem n hnmem) hi hj]
        exact ⟨hfull.methods c hmem n hnmem, hj.trans_eq hlength.symm, hk.trans_eq hlength.symm,
          fun name' hname' =>
            (find?_method_eq_some_iff ht hfull hmem hj).2 ⟨hnmem, hname', hstored⟩⟩

/-! ## 7. Targets -/

/-- **A target, by way of a second namespace.** -/
theorem target_target (h : t.SettledTarget i owner target) (hj : j < t.namespaces.length)
    (hk : k < t.namespaces.length) :
    t.target j k (t.className i j owner) (t.target i j owner target) =
      t.target i k owner target := by
  cases target with
  | self | allFields | allMethods => rfl
  | field name => exact target_target_field ht hfull h hj hk
  | method m => exact target_target_method ht hfull h hj hk

omit ht hfull in
/-- In its own namespace a target stays. -/
theorem target_self (t : NameTable) (i : Nat) (owner : String) (target : Target) :
    t.target i i owner target = target := by
  cases target with
  | self | allFields | allMethods => rfl
  | field name =>
      cases hc : t.classNamed? owner i with
      | none => exact target_field_of_none hc name i
      | some c =>
          rw [target_field_of_some hc]
          exact congrArg Target.field (memberName_self fun f hf => eq_of_beq hf)
  | method m =>
      cases hc : t.classNamed? owner i with
      | none => rw [target_method_of_none hc, descriptor_self]
      | some c =>
          rw [target_method_of_some hc, memberName_self fun n hn => (isMethod_iff.1 hn).1,
            descriptor_self]

end ClassAccess.NameTable
