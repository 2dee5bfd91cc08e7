import ClassAccess.Proofs.TransformSet.Renaming

/-!
# Requests that fall together

Under other names requests of several classes may come to one class, and those of several members to
one member. Renaming merges them.

* `TransformSet.classesTo`, `fieldsTo`, `methodsTo` -- what comes to a class, to a field and to a
  method;
* `TransformSet.RenamedTo` -- **nothing is lost and nothing is made up**: a set in other names holds
  what comes to its classes and members, and nothing else;
* `asked_rename_eq_mergeAll` -- **what a renamed set asks for is the merge** of what comes there;
* `renameBetween_renamedTo` -- the same of renaming between two namespaces, in whatever order the
  requests are met.
-/

namespace ClassAccess

/-! ## 1. What comes to a name -/

namespace TransformSet

/-- The classes that get a name, with their old names. -/
def classesTo (s : TransformSet) (t : NameTable) (i j : Nat) (name : String) :
    List (String × ClassTransforms) :=
  s.classes.entries.filter fun e => t.className i j e.1 = name

/-- What is stored for the fields that get a name within the classes that get one. -/
def fieldsTo (s : TransformSet) (t : NameTable) (i j : Nat) (name field : String) :
    List Transform :=
  (s.classesTo t i j name).flatMap fun e =>
    (e.2.fields.entries.filter fun f => (t.fieldName? e.1 f.1 i j).getD f.1 = field).map Prod.snd

/-- What is stored for the methods that get a name and a descriptor within the classes that get a
    name. -/
def methodsTo (s : TransformSet) (t : NameTable) (i j : Nat) (name method descriptor : String) :
    List Transform :=
  (s.classesTo t i j name).flatMap fun e =>
    (e.2.methods.entries.filter fun m =>
      (t.methodName? e.1 m.1.name m.1.descriptor i j).getD m.1.name = method ∧
        Descriptor.Renames (Descriptor.renamed fun c => t.className? c i j)
          m.1.descriptor.toList descriptor.toList).map Prod.snd

/-- **Whether a set is another one in other names**: it holds what comes to its classes and members,
    all of it merged, and nothing else. -/
structure RenamedTo (t : NameTable) (i j : Nat) (s out : TransformSet) : Prop where
  /-- The classes are those that some class becomes. -/
  classes : ∀ name, name ∈ out.classes.keys ↔ ∃ owner ∈ s.classes.keys, t.className i j owner = name
  /-- Requests for classes, for all fields and for all methods are merged. -/
  self : ∀ name, (out.get name).self =
    .mergeAll ((s.classesTo t i j name).map fun e => e.2.self)
  allFields : ∀ name, (out.get name).allFields =
    .mergeAll ((s.classesTo t i j name).map fun e => e.2.allFields)
  allMethods : ∀ name, (out.get name).allMethods =
    .mergeAll ((s.classesTo t i j name).map fun e => e.2.allMethods)
  /-- So are those for one field, and those for one method. -/
  field : ∀ name field, (out.get name).field field = .mergeAll (s.fieldsTo t i j name field)
  method : ∀ name method descriptor, (out.get name).method ⟨method, descriptor⟩ =
    .mergeAll (s.methodsTo t i j name method descriptor)
  /-- A member is stored only if one comes to it. -/
  fields : ∀ name field,
    field ∈ (out.get name).fields.keys ↔ s.fieldsTo t i j name field ≠ []
  methods : ∀ name method descriptor,
    ⟨method, descriptor⟩ ∈ (out.get name).methods.keys ↔
      s.methodsTo t i j name method descriptor ≠ []

/-! ## 2. What comes to a target -/

variable {s : TransformSet} {t : NameTable} {i j : Nat} {name : String} {target : Target}
  {u : Transform}

/-- Whether a request that is stored comes to a target of a class. -/
def Comes (s : TransformSet) (t : NameTable) (i j : Nat) (name : String) (target : Target)
    (u : Transform) : Prop :=
  ∃ owner c old, (owner, c) ∈ s.classesTo t i j name ∧ c.stored? old = some u ∧
    t.target i j owner old = target

theorem mem_classesTo {e : String × ClassTransforms} : e ∈ s.classesTo t i j name ↔
    s.get? e.1 = some e.2 ∧ t.className i j e.1 = name := by
  rw [classesTo, List.mem_filter, decide_eq_true_iff]
  exact and_congr_left' Listing.mem_entries_iff

theorem comes_iff : s.Comes t i j name target u ↔
    ∃ r ∈ s.stored, (t.className i j r.1 = name ∧ t.target i j r.1 r.2.1 = target) ∧ r.2.2 = u := by
  constructor
  · rintro ⟨owner, c, old, hc, hold, htarget⟩
    obtain ⟨hget, hname⟩ := mem_classesTo.1 hc
    exact ⟨(owner, old, u), mem_stored_iff.2 ⟨c, hget, hold⟩, ⟨hname, htarget⟩, rfl⟩
  · rintro ⟨⟨owner, old, v⟩, hr, ⟨hname, htarget⟩, rfl⟩
    obtain ⟨c, hget, hold⟩ := mem_stored_iff.1 hr
    exact ⟨owner, c, old, mem_classesTo.2 ⟨hget, hname⟩, hold, htarget⟩

theorem mem_fieldsTo {field : String} :
    u ∈ s.fieldsTo t i j name field ↔ s.Comes t i j name (.field field) u := by
  simp only [fieldsTo, List.mem_flatMap, List.mem_map, List.mem_filter, decide_eq_true_iff]
  constructor
  · rintro ⟨⟨owner, c⟩, hc, ⟨old, _⟩, ⟨hold, hfield⟩, rfl⟩
    exact ⟨owner, c, .field old, hc, Listing.mem_entries_iff.1 hold, congrArg _ hfield⟩
  · rintro ⟨owner, c, old, hc, hold, htarget⟩
    cases old with
    | field old =>
        exact ⟨(owner, c), hc, (old, u), ⟨Listing.mem_entries_iff.2 hold, Target.field.inj htarget⟩,
          rfl⟩
    | self | allFields | allMethods | method => cases htarget

theorem mem_methodsTo {method descriptor : String} :
    u ∈ s.methodsTo t i j name method descriptor ↔
      s.Comes t i j name (.method ⟨method, descriptor⟩) u := by
  simp only [methodsTo, List.mem_flatMap, List.mem_map, List.mem_filter, decide_eq_true_iff,
    Descriptor.renames_iff]
  constructor
  · rintro ⟨⟨owner, c⟩, hc, ⟨old, _⟩, ⟨hold, hmethod, hdescriptor⟩, rfl⟩
    refine ⟨owner, c, .method old, hc, Listing.mem_entries_iff.1 hold, ?_⟩
    rw [NameTable.target, hmethod, NameTable.descriptor, hdescriptor]
  · rintro ⟨owner, c, old, hc, hold, htarget⟩
    cases old with
    | method old =>
        obtain ⟨hmethod, hdescriptor⟩ := Signature.mk.inj (Target.method.inj htarget)
        have he := Listing.mem_entries_iff.2 hold
        exact ⟨(owner, c), hc, (old, u), ⟨he, hmethod, hdescriptor⟩, rfl⟩
    | self | allFields | allMethods | field => cases htarget

/-! ## 3. Renaming -/

/-- What a renamed set asks for is all of what comes to the target. -/
theorem asked_rename_eq_mergeAll {requests : List Transform}
    (h : ∀ u, u ∈ requests ↔ s.Comes t i j name target u) :
    (s.rename t i j).asked name target = .mergeAll requests := by
  refine Transform.eq_of_le_iff fun u => ?_
  rw [rename_eq_askEach, asked_askEach_le_iff, asked_empty, Transform.mergeAll_le_iff]
  simp only [Transform.none_le, true_and, h, comes_iff]
  exact ⟨fun h v ⟨r, hr, hcomes, hv⟩ => hv ▸ h r hr hcomes,
    fun h r hr hcomes => h _ ⟨r, hr, hcomes, rfl⟩⟩

/-- Classes, all fields and all methods stay what they are. -/
theorem asked_rename_wide (target : Target)
    (hwide : ∀ owner old, t.target i j owner old = target ↔ old = target)
    (hstored : ∀ c : ClassTransforms, c.stored? target = some (c.get target)) :
    (s.rename t i j).asked name target =
      .mergeAll ((s.classesTo t i j name).map fun e => e.2.get target) := by
  refine asked_rename_eq_mergeAll fun u => ?_
  rw [List.mem_map]
  constructor
  · rintro ⟨⟨owner, c⟩, hc, rfl⟩
    exact ⟨owner, c, target, hc, hstored c, (hwide owner target).2 rfl⟩
  · rintro ⟨owner, c, old, hc, hold, htarget⟩
    obtain rfl := (hwide owner old).1 htarget
    rw [hstored] at hold
    exact ⟨(owner, c), hc, Option.some.inj hold⟩

/-- A renamed set stores something for a target only if something comes to it. -/
theorem isSome_stored?_rename {requests : List Transform}
    (h : ∀ u, u ∈ requests ↔ s.Comes t i j name target u)
    (hnone : ({} : ClassTransforms).stored? target = none) :
    (((s.rename t i j).get name).stored? target).isSome = true ↔ requests ≠ [] := by
  have hempty : ((({} : TransformSet).get name).stored? target).isSome ≠ true := by
    change (({} : ClassTransforms).stored? target).isSome ≠ true
    rw [hnone]
    decide
  rw [rename_eq_askEach, isSome_stored?_askEach, or_iff_right hempty, Ne,
    List.eq_nil_iff_forall_not_mem, not_forall_not]
  simp only [h, comes_iff]
  exact ⟨fun ⟨r, hr, hcomes⟩ => ⟨_, r, hr, hcomes, rfl⟩,
    fun ⟨_, r, hr, hcomes, _⟩ => ⟨r, hr, hcomes⟩⟩

/-- A class is stored only if one comes to it. -/
theorem mem_keys_rename : name ∈ (s.rename t i j).classes.keys ↔
    ∃ owner ∈ s.classes.keys, t.className i j owner = name := by
  have hempty : name ∉ ({} : TransformSet).classes.keys := List.not_mem_nil
  rw [rename_eq_askEach, mem_keys_askEach, or_iff_right hempty]
  constructor
  · rintro ⟨⟨owner, old, u⟩, hr, hname⟩
    obtain ⟨c, hget, -⟩ := mem_stored_iff.1 hr
    exact ⟨owner, Listing.mem_keys_iff.2 (Option.isSome_iff_exists.2 ⟨c, hget⟩), hname⟩
  · rintro ⟨owner, howner, hname⟩
    obtain ⟨c, hget⟩ := Option.isSome_iff_exists.1 (Listing.mem_keys_iff.1 howner)
    exact ⟨(owner, .self, c.self), mem_stored_iff.2 ⟨c, hget, rfl⟩, hname⟩

/-- **Renaming loses nothing and makes nothing up.** -/
theorem renamedTo_rename (s : TransformSet) (t : NameTable) (i j : Nat) :
    RenamedTo t i j s (s.rename t i j) where
  classes _ := mem_keys_rename
  self _ := asked_rename_wide .self (fun _ old => by cases old <;> simp [NameTable.target])
    fun _ => rfl
  allFields _ := asked_rename_wide .allFields
    (fun _ old => by cases old <;> simp [NameTable.target]) fun _ => rfl
  allMethods _ := asked_rename_wide .allMethods
    (fun _ old => by cases old <;> simp [NameTable.target]) fun _ => rfl
  field _ _ := asked_rename_eq_mergeAll fun _ => mem_fieldsTo
  method _ _ _ := asked_rename_eq_mergeAll fun _ => mem_methodsTo
  fields _ _ := Listing.mem_keys_iff.trans (isSome_stored?_rename (fun _ => mem_fieldsTo) rfl)
  methods _ _ _ := Listing.mem_keys_iff.trans (isSome_stored?_rename (fun _ => mem_methodsTo) rfl)

/-- **Between two namespaces requests that fall together are merged**: nothing is lost, nothing is
    made up, and it does not matter in which order the requests are met. -/
theorem renameBetween_renamedTo (s : TransformSet) {a b : String} (ha : t.namespace? a = some i)
    (hb : t.namespace? b = some j) (hne : a ≠ b) :
    ∃ out, s.renameBetween t a b = .ok out ∧ RenamedTo t i j s out ∧
      ∀ met, met.Perm s.stored → askEach (t.className i j) (t.target i j) met {} = out := by
  have hij : i ≠ j := by
    rintro rfl
    exact hne (namespace?_inj ha hb)
  refine ⟨s.rename t i j, ?_, renamedTo_rename s t i j, fun met hmet => ?_⟩
  · rw [renameBetween_eq s ha hb, if_neg hij]
  · rw [rename_eq_askEach]
    exact askEach_congr fun r => hmet.mem_iff

end TransformSet

/-! ## 4. Classes, fields and methods that fall together -/

/-- A class that gets the name of another one, with a field and a method. -/
def NameTable.colliding : NameTable where
  namespaces := ["a", "b"]
  classes := [{
    names := ["x", "Same"]
    fields := [["f", "count"]]
    methods := [⟨"(Lx;)V", ["m", "merge"]⟩] }]

namespace TransformSet

/-- Requests for the class and its members by their old names, and by the names they get. -/
def collidingRequests : TransformSet :=
  [("x", .self, ⟨.protectedAccess, .unchanged⟩), ("Same", .self, ⟨.publicAccess, .remove⟩),
    ("x", .field "f", ⟨.unchanged, .remove⟩), ("x", .field "count", ⟨.privateAccess, .unchanged⟩),
    ("Same", .field "count", ⟨.packageAccess, .add⟩),
    ("x", .method ⟨"m", "(Lx;)V"⟩, ⟨.publicAccess, .unchanged⟩),
    ("Same", .method ⟨"merge", "(LSame;)V"⟩, ⟨.unchanged, .add⟩)].foldl
      (fun s r => s.mergeAt r.1 r.2.1 r.2.2) {}

/-- From the first namespace to the second one. -/
theorem renameBetween_collidingRequests :
    ∃ out, collidingRequests.renameBetween NameTable.colliding "a" "b" = .ok out ∧
      RenamedTo NameTable.colliding 0 1 collidingRequests out ∧
        ∀ met, met.Perm collidingRequests.stored →
          askEach (NameTable.colliding.className 0 1) (NameTable.colliding.target 0 1) met {} =
            out :=
  renameBetween_renamedTo collidingRequests rfl rfl (by decide)

/-- All that falls together is merged. -/
example : (collidingRequests.rename NameTable.colliding 0 1).stored =
    [("Same", .self, ⟨.publicAccess, .remove⟩), ("Same", .allFields, .none),
      ("Same", .allMethods, .none), ("Same", .field "count", ⟨.packageAccess, .remove⟩),
      ("Same", .method ⟨"merge", "(LSame;)V"⟩, ⟨.publicAccess, .add⟩)] := by
  decide +kernel

end TransformSet

end ClassAccess
