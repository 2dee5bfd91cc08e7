import ClassAccess.Proofs.NameTable.FullyMapped

/-!
# What the name of a member stands for

A field or a method is looked up by what one namespace calls it and its class. Of several members of
one name, the first one is found; it is told by its name in the other namespace.

* `NameTable.FieldNamed`, `NameTable.MethodNamed` -- the member that a name stands for;
* `members_resolve` -- **a name is found exactly if the member that it stands for has a name in the
  other namespace**, and a request is renamed in no other way;
* `not_named_of_resolves` -- the name that is looked up may be the empty one, which stands for a
  member without a name: classes without a name are not found, but members are.
-/

namespace ClassAccess

/-- `a` is the first element of a list of which `p` holds. -/
def IsFirst {α : Type} (p : α → Prop) (l : List α) (a : α) : Prop :=
  ∃ front rest, l = front ++ a :: rest ∧ p a ∧ ∀ b ∈ front, ¬ p b

theorem find?_eq_some_iff_isFirst {α : Type} {q : α → Bool} {p : α → Prop}
    (h : ∀ a, q a = true ↔ p a) {l : List α} {a : α} : l.find? q = some a ↔ IsFirst p l a := by
  rw [List.find?_eq_some_iff_append]
  constructor
  · rintro ⟨ha, front, rest, rfl, hfront⟩
    refine ⟨front, rest, rfl, (h a).1 ha, fun b hb hp => ?_⟩
    have hq := hfront b hb
    rw [(h b).2 hp] at hq
    cases hq
  · rintro ⟨front, rest, rfl, ha, hfront⟩
    refine ⟨(h a).2 ha, front, rest, rfl, fun b hb => ?_⟩
    rw [Bool.not_eq_true', Bool.eq_false_iff]
    exact fun hq => hfront b hb ((h b).1 hq)

namespace NameTable

variable {t : NameTable} {i j : Nat} {owner name descriptor new : String}

/-! ## 1. Members by their names -/

/-- The field that namespace `i` calls `name`, in the class that it calls `owner`. -/
def FieldNamed (t : NameTable) (i : Nat) (owner name : String) (f : List String) : Prop :=
  ∃ c ∈ t.classes, c.names[i]? = some owner ∧ owner ≠ "" ∧
    IsFirst (fun g => g[i]? = some name) c.fields f

/-- The method that namespace `i` calls `name` and that has a descriptor there, in the class that it
    calls `owner`. -/
def MethodNamed (t : NameTable) (i : Nat) (owner name descriptor : String) (m : MethodNames) :
    Prop :=
  ∃ c ∈ t.classes, c.names[i]? = some owner ∧ owner ≠ "" ∧
    IsFirst (fun n => n.names[i]? = some name ∧ t.descriptorIn n.descriptor i = descriptor)
      c.methods m

theorem nameIn?_eq_some_iff {names : List String} :
    nameIn? names j = some new ↔ new ≠ "" ∧ names[j]? = some new := by
  constructor
  · intro h
    unfold nameIn? at h
    obtain ⟨hname, hne⟩ := Option.filter_eq_some_iff.1 h
    refine ⟨fun he => ?_, hname⟩
    rw [he] at hne
    cases hne
  · exact fun ⟨hne, hname⟩ => nameIn?_of_ne_empty hname hne

/-- What is found in the class of a name. -/
theorem bind_classNamed?_eq_some_iff {α : Type} (ht : t.WellFormed)
    {f : ClassNames → Option α} {a : α} : (t.classNamed? owner i).bind f = some a ↔
      ∃ c ∈ t.classes, c.names[i]? = some owner ∧ owner ≠ "" ∧ f c = some a := by
  simp only [Option.bind_eq_some_iff, ht.classNamed?_eq_some_iff, and_assoc]

theorem fieldName?_eq_some_iff (ht : t.WellFormed) : t.fieldName? owner name i j = some new ↔
    new ≠ "" ∧ ∃ f, t.FieldNamed i owner name f ∧ f[j]? = some new := by
  have hfind : ∀ {c : ClassNames} {f : List String}, c.fields.find? (·[i]? == some name) = some f ↔
      IsFirst (fun g => g[i]? = some name) c.fields f :=
    find?_eq_some_iff_isFirst fun _ => beq_iff_eq
  unfold fieldName?
  simp only [Option.bind_eq_bind]
  rw [bind_classNamed?_eq_some_iff ht]
  simp only [Option.bind_eq_some_iff, hfind, nameIn?_eq_some_iff]
  constructor
  · rintro ⟨c, hc, hname, hne, f, hf, hnew, hget⟩
    exact ⟨hnew, f, ⟨c, hc, hname, hne, hf⟩, hget⟩
  · rintro ⟨hnew, f, ⟨c, hc, hname, hne, hf⟩, hget⟩
    exact ⟨c, hc, hname, hne, f, hf, hnew, hget⟩

theorem methodName?_eq_some_iff (ht : t.WellFormed) :
    t.methodName? owner name descriptor i j = some new ↔
      new ≠ "" ∧ ∃ m, t.MethodNamed i owner name descriptor m ∧ m.names[j]? = some new := by
  have hfind : ∀ {c : ClassNames} {m : MethodNames},
      c.methods.find? (t.isMethod i name descriptor) = some m ↔
        IsFirst (fun n => n.names[i]? = some name ∧ t.descriptorIn n.descriptor i = descriptor)
          c.methods m :=
    find?_eq_some_iff_isFirst fun _ => isMethod_iff
  change (t.classNamed? owner i).bind (fun c =>
    (c.methods.find? (t.isMethod i name descriptor)).bind fun m => nameIn? m.names j) = some new ↔ _
  rw [bind_classNamed?_eq_some_iff ht]
  simp only [Option.bind_eq_some_iff, hfind, nameIn?_eq_some_iff]
  constructor
  · rintro ⟨c, hc, hname, hne, m, hm, hnew, hget⟩
    exact ⟨hnew, m, ⟨c, hc, hname, hne, hm⟩, hget⟩
  · rintro ⟨hnew, m, ⟨c, hc, hname, hne, hm⟩, hget⟩
    exact ⟨c, hc, hname, hne, m, hm, hnew, hget⟩

/-! ## 2. What is found -/

/-- A name that is replaced is replaced by the one that is found. -/
theorem eq_or_of_getD {found : Option String} (h : found.getD name = new) :
    new = name ∨ found = some new := by
  cases found with
  | none => exact .inl h.symm
  | some found => exact .inr (congrArg some h)

/-- **When the name of a member is found.** It is found exactly if the member that it stands for has
    a name in the other namespace, and what is found is that name. A request for a member keeps the
    name of the member, or gets the one that is found. -/
theorem members_resolve (ht : t.Built) (i j : Nat) (owner name descriptor new : String) :
    (t.fieldName? owner name i j = some new ↔
      new ≠ "" ∧ ∃ f, t.FieldNamed i owner name f ∧ f[j]? = some new) ∧
    (t.methodName? owner name descriptor i j = some new ↔
      new ≠ "" ∧ ∃ m, t.MethodNamed i owner name descriptor m ∧ m.names[j]? = some new) ∧
    (t.target i j owner (.field name) = .field new → new = name ∨
      new ≠ "" ∧ ∃ f, t.FieldNamed i owner name f ∧ f[j]? = some new) ∧
    (∀ d, t.target i j owner (.method ⟨name, descriptor⟩) = .method ⟨new, d⟩ → new = name ∨
      new ≠ "" ∧ ∃ m, t.MethodNamed i owner name descriptor m ∧ m.names[j]? = some new) := by
  have hfield : t.fieldName? owner name i j = some new ↔
      new ≠ "" ∧ ∃ f, t.FieldNamed i owner name f ∧ f[j]? = some new :=
    fieldName?_eq_some_iff ht.wellFormed
  have hmethod : t.methodName? owner name descriptor i j = some new ↔
      new ≠ "" ∧ ∃ m, t.MethodNamed i owner name descriptor m ∧ m.names[j]? = some new :=
    methodName?_eq_some_iff ht.wellFormed
  refine ⟨hfield, hmethod, fun h => ?_, fun d h => ?_⟩
  · exact (eq_or_of_getD (Target.field.inj h)).imp_right hfield.1
  · exact (eq_or_of_getD (congrArg Signature.name (Target.method.inj h))).imp_right hmethod.1

/-! ## 3. Members without a name -/

/-- A class whose method and field have a name in the second namespace only. -/
def halfNamed : NameTable where
  namespaces := ["obf", "named"]
  classes := [{
    names := ["A", "net/example/Foo"]
    fields := [["", "count"]]
    methods := [⟨"(I)V", ["", "merge"]⟩] }]

theorem built_halfNamed : halfNamed.Built := by
  have h₀ := Built.ofNamespaces (show ofNamespaces ["obf", "named"] = .ok _ from rfl)
  have h₁ := h₀.addClass (show addClass _ ["A", "net/example/Foo"] = .ok (0, _) from rfl)
  have h₂ := h₁.addField (show addField _ 0 ["", "count"] = .ok _ from rfl)
  exact h₂.addMethod (show addMethod _ 0 "(I)V" ["", "merge"] = .ok _ from rfl)

theorem members_resolve_halfNamed : halfNamed.Built ∧
    ∃ m, halfNamed.MethodNamed 0 "A" "" "(I)V" m ∧ m.names[1]? = some "merge" := by
  refine ⟨built_halfNamed, ?_⟩
  have hresolve := (members_resolve built_halfNamed 0 1 "A" "" "(I)V" "merge").2.1
  exact (hresolve.1 (by decide +kernel)).2

/-- **A missing name is found, too**: the empty name stands for the first member without a name, and
    a request for a method of that name gets the name of this method. -/
theorem not_named_of_resolves :
    (¬ ∀ (t : NameTable), t.Built → ∀ (i j : Nat) (owner name descriptor new : String),
      t.fieldName? owner name i j = some new ∨
        t.methodName? owner name descriptor i j = some new → name ≠ "") ∧
    TransformSet.renameTextBetween "public A (I)V\n" halfNamed "obf" "named" =
      .ok "public net/example/Foo merge(I)V\n" := by
  refine ⟨fun h => ?_, by decide +kernel⟩
  exact h halfNamed built_halfNamed 0 1 "A" "" "(I)V" "merge" (.inr (by decide +kernel)) rfl

end NameTable

end ClassAccess
