import ClassAccess.Proofs.Access.Join
import ClassAccess.TransformSet

/-!
# What transform sets ask for

All that matters about a transform set is what it asks for each target of each class.

* `TransformSet.asked` -- that transform, which is the one for nothing where nothing is stored;
* `asked_mergeAt` -- asking for more at a target changes what is asked for there, and nothing else;
* `mem_requests_of_get`, `get_of_mem_requests` -- the requests that are stored are those that are
  found;
* `same_iff` -- **two sets are the same exactly if they ask for the same** everywhere;
* `TransformSet.stored`, `askEach` -- everything that is stored, request by request, and asking for
  it under other names;
* `asked_askEach_le_iff`, `askEach_congr` -- **what is asked for is the join** of it all, and **the
  order does not matter**;
* `merge_eq_askAll`, `asked_merge`, `askAll_stored` -- **merging a set is asking for everything that
  it stores**, or for all the requests that it came from;
* `le_iff`, `le_iff_same` -- the order of sets, and that **a set is below another one exactly if
  merging it makes no difference**.
-/

namespace ClassAccess

/-! ## 1. Listings -/

namespace Listing

variable {κ ν μ : Type} [Ord κ] [Std.TransOrd κ] [Std.LawfulEqOrd κ]

theorem mem_keys_iff {l : Listing κ ν} {k : κ} : k ∈ l.keys ↔ (l.get? k).isSome = true := by
  rw [keys, List.mem_map, Option.isSome_iff_exists]
  constructor
  · rintro ⟨⟨_, v⟩, he, rfl⟩
    exact ⟨v, mem_entries_iff.1 he⟩
  · rintro ⟨v, hv⟩
    exact ⟨(k, v), mem_entries_iff.2 hv, rfl⟩

/-- **What is selected from a listing is found where it was found.** -/
theorem get?_filterMap (f : ν → Option μ) (l : Listing κ ν) (k : κ) :
    (l.filterMap f).get? k = (l.get? k).bind f := by
  refine Option.ext fun v => ?_
  rw [← mem_entries_iff, Option.bind_eq_some_iff]
  simp only [filterMap, List.mem_filterMap, Option.map_eq_some_iff]
  constructor
  · rintro ⟨⟨j, w⟩, hmem, v', hv, he⟩
    cases he
    exact ⟨w, mem_entries_iff.1 hmem, hv⟩
  · rintro ⟨w, hw, hv⟩
    exact ⟨(k, w), mem_entries_iff.2 hw, v, hv, rfl⟩

end Listing

/-! ## 2. One class -/

namespace ClassTransforms

variable {c d : ClassTransforms} {target : Target} {t : Transform}

/-- What is stored for a target. Something always is for the class, for all fields and for all
    methods. -/
def stored? (c : ClassTransforms) : Target → Option Transform
  | .self => some c.self
  | .allFields => some c.allFields
  | .allMethods => some c.allMethods
  | .field name => c.fields.get? name
  | .method signature => c.methods.get? signature

theorem get_eq_stored? (c : ClassTransforms) (target : Target) :
    c.get target = (c.stored? target).getD .none := by
  cases target <;> rfl

/-- **Asking for more at a target changes what is stored there**, and nothing else. -/
theorem stored?_merge (c : ClassTransforms) (target : Target) (t : Transform) (other : Target) :
    (c.merge target t).stored? other =
      if other = target then some ((c.get target).merge t) else c.stored? other := by
  split
  · rename_i h
    subst h
    cases other with
    | self | allFields | allMethods => rfl
    | field name => simp only [merge, stored?, get, field, Listing.get?_update_self]
    | method m => simp only [merge, stored?, get, method, Listing.get?_update_self]
  · rename_i h
    cases target with
    | self | allFields | allMethods => cases other <;> first | rfl | exact absurd rfl h
    | field name =>
        cases other with
        | self | allFields | allMethods | method => rfl
        | field other =>
            have hne : other ≠ name := fun he => h (congrArg Target.field he)
            simp only [merge, stored?, Listing.get?_update_of_ne _ _ hne]
    | method m =>
        cases other with
        | self | allFields | allMethods | field => rfl
        | method other =>
            have hne : other ≠ m := fun he => h (congrArg Target.method he)
            simp only [merge, stored?, Listing.get?_update_of_ne _ _ hne]

/-- **Asking for more at a target changes what is asked for there**, and nothing else. -/
theorem get_merge (c : ClassTransforms) (target : Target) (t : Transform) (other : Target) :
    (c.merge target t).get other =
      if other = target then (c.get target).merge t else c.get other := by
  rw [get_eq_stored? _ other, stored?_merge]
  split
  · rfl
  · exact (get_eq_stored? c other).symm

@[simp] theorem get_empty (target : Target) : ({} : ClassTransforms).get target = .none := by
  cases target <;> rfl

/-- **The requests are what is stored.** -/
theorem mem_requests_iff : (target, t) ∈ c.requests ↔ c.stored? target = some t := by
  simp only [requests, List.mem_append, List.mem_cons, List.mem_map, Prod.mk.injEq,
    List.not_mem_nil, or_false]
  cases target with
  | self | allFields | allMethods => simp [stored?, eq_comm]
  | field name => simp [stored?, ← Listing.mem_entries_iff]
  | method m => simp [stored?, ← Listing.mem_entries_iff]

/-- What is stored for every class is stored for a class without requests. -/
theorem isSome_stored?_of_empty (h : (({} : ClassTransforms).stored? target).isSome = true) :
    (c.stored? target).isSome = true := by
  cases target with
  | self | allFields | allMethods => rfl
  | field | method => cases h

/-- Classes with the same requests are the same. -/
theorem ext_stored? (h : ∀ target, c.stored? target = d.stored? target) : c = d := by
  have hself : some c.self = some d.self := h .self
  have hallFields : some c.allFields = some d.allFields := h .allFields
  have hallMethods : some c.allMethods = some d.allMethods := h .allMethods
  have hfields : c.fields = d.fields := Listing.ext_get? fun name => h (.field name)
  have hmethods : c.methods = d.methods := Listing.ext_get? fun m => h (.method m)
  cases c
  cases d
  simp_all only [Option.some.injEq]

/-- **A request that is stored is found.** -/
theorem get_of_mem_requests (h : (target, t) ∈ c.requests) : c.get target = t := by
  rw [get_eq_stored?, mem_requests_iff.1 h, Option.getD_some]

/-- **What is asked for is stored.** -/
theorem mem_requests_of_get (h : c.get target ≠ .none) : (target, c.get target) ∈ c.requests := by
  rw [get_eq_stored?] at h ⊢
  rw [mem_requests_iff]
  cases hs : c.stored? target with
  | none =>
      rw [hs] at h
      exact absurd rfl h
  | some t => rfl

/-- A statement about all requests that ask for something is one about all targets. -/
theorem forall_requests_iff {p : Target → Transform → Prop} :
    (∀ r ∈ c.requests, r.2 ≠ .none → p r.1 r.2) ↔
      ∀ target, c.get target ≠ .none → p target (c.get target) := by
  constructor
  · exact fun h target ht => h _ (mem_requests_of_get ht) ht
  · rintro h ⟨target, t⟩ hr ht
    have hget := get_of_mem_requests hr
    subst hget
    exact h target ht

theorem isEmpty_iff : c.isEmpty = true ↔ ∀ target, c.get target = .none := by
  have h := forall_requests_iff (c := c) (p := fun _ _ => False)
  simp only [imp_false, not_not] at h
  rw [← h, isEmpty, List.all_eq_true]
  simp only [Transform.isNone_iff]

/-! ## 3. Classes that are asked for the same -/

theorem nonempty?_getD (t : Option Transform) :
    ((t.bind nonempty?).getD {}) = t.getD {} := by
  cases t with
  | none => rfl
  | some t =>
      by_cases ht : t.isNone = true
      · rw [Option.bind_some, nonempty?, if_pos ht, Transform.isNone_iff.1 ht]
        rfl
      · rw [Option.bind_some, nonempty?, if_neg ht]

/-- Requests for nothing make no difference to what is asked for. -/
theorem get_visible (c : ClassTransforms) (target : Target) :
    c.visible.get target = c.get target := by
  cases target with
  | self | allFields | allMethods => rfl
  | field name => simp only [visible, get, field, Listing.get?_filterMap, nonempty?_getD]
  | method m => simp only [visible, get, method, Listing.get?_filterMap, nonempty?_getD]

/-- What is left of a stored request is told by what is asked for. -/
theorem bind_nonempty? (t : Option Transform) : t.bind nonempty? = nonempty? (t.getD {}) := by
  cases t <;> rfl

/-- **Classes that are asked for the same have the same visible requests.** -/
theorem visible_ext (h : ∀ target, c.get target = d.get target) : c.visible = d.visible := by
  have hfields : c.visible.fields = d.visible.fields := by
    refine Listing.ext_get? fun name => ?_
    have hname : c.field name = d.field name := h (.field name)
    unfold field at hname
    simp only [visible, Listing.get?_filterMap, bind_nonempty?, hname]
  have hmethods : c.visible.methods = d.visible.methods := by
    refine Listing.ext_get? fun m => ?_
    have hm : c.method m = d.method m := h (.method m)
    unfold method at hm
    simp only [visible, Listing.get?_filterMap, bind_nonempty?, hm]
  have hself : c.self = d.self := h .self
  have hallFields : c.allFields = d.allFields := h .allFields
  have hallMethods : c.allMethods = d.allMethods := h .allMethods
  unfold visible at hfields hmethods ⊢
  simp only at hfields hmethods
  rw [hself, hallFields, hallMethods, hfields, hmethods]

end ClassTransforms

/-! ## 4. Whole sets -/

namespace TransformSet

variable {s s' : TransformSet} {name : String} {target : Target}

/-- What a set asks for a target of a class. -/
def asked (s : TransformSet) (name : String) (target : Target) : Transform :=
  (s.get name).get target

@[simp] theorem asked_empty (name : String) (target : Target) :
    ({} : TransformSet).asked name target = .none := ClassTransforms.get_empty target

theorem get_updateClass (s : TransformSet) (name other : String)
    (f : ClassTransforms → ClassTransforms) :
    (s.updateClass name f).get other = if other = name then f (s.get name) else s.get other := by
  unfold get get? updateClass
  split
  · rename_i h
    rw [h, Listing.get?_update_self, Option.getD_some]
  · rename_i h
    rw [Listing.get?_update_of_ne _ _ h]

/-- **Asking for more at a target of a class changes what is asked for there**, and nothing else. -/
theorem asked_mergeAt (s : TransformSet) (name : String) (target : Target) (t : Transform)
    (other : String) (otherTarget : Target) :
    (s.mergeAt name target t).asked other otherTarget =
      if other = name ∧ otherTarget = target then (s.asked name target).merge t
      else s.asked other otherTarget := by
  unfold asked mergeAt
  rw [get_updateClass]
  by_cases hn : other = name
  · rw [if_pos hn, ClassTransforms.get_merge]
    by_cases ht : otherTarget = target
    · rw [if_pos ht, if_pos ⟨hn, ht⟩]
    · rw [if_neg ht, if_neg fun h => ht h.2, hn]
  · rw [if_neg hn, if_neg fun h => hn h.1]

/-- Where a set asks for something after one more request. -/
theorem forall_asked_mergeAt {p : String → Target → Prop}
    (h : ∀ other otherTarget, s.asked other otherTarget ≠ .none → p other otherTarget)
    (hp : p name target) (t : Transform) (other : String) (otherTarget : Target)
    (hne : (s.mergeAt name target t).asked other otherTarget ≠ .none) : p other otherTarget := by
  rw [asked_mergeAt] at hne
  split at hne
  · rename_i he
    rw [he.1, he.2]
    exact hp
  · exact h other otherTarget hne

/-- A class that is asked for something is stored. -/
theorem mem_entries_of_asked (h : s.asked name target ≠ .none) :
    (name, s.get name) ∈ s.classes.entries := by
  cases hc : s.classes.get? name with
  | none =>
      have hget : s.get name = {} := by unfold get get?; rw [hc]; rfl
      unfold asked at h
      rw [hget, ClassTransforms.get_empty] at h
      exact absurd rfl h
  | some c =>
      have hget : s.get name = c := by unfold get get?; rw [hc]; rfl
      rw [hget]
      exact Listing.mem_entries_iff.2 hc

theorem get_of_mem_entries {c : ClassTransforms} (h : (name, c) ∈ s.classes.entries) :
    s.get name = c := by
  unfold get get?
  rw [Listing.mem_entries_iff.1 h, Option.getD_some]

/-- Requests for nothing make no difference to what is asked for. -/
theorem asked_visible (s : TransformSet) (name : String) (target : Target) :
    s.visible.asked name target = s.asked name target := by
  unfold asked get get? visible
  rw [Listing.get?_filterMap]
  cases s.classes.get? name with
  | none => rfl
  | some c =>
      rw [Option.bind_some, Option.getD_some]
      split
      · rename_i he
        exact (ClassTransforms.get_empty target).trans
          (ClassTransforms.isEmpty_iff.1 he target).symm
      · rw [Option.getD_some, ClassTransforms.get_visible]

/-- What is left of a class is told by what is asked for. -/
theorem get?_visible (s : TransformSet) (name : String) : s.visible.classes.get? name =
    if (s.get name).isEmpty then Option.none else some (s.get name).visible := by
  unfold get get? visible
  rw [Listing.get?_filterMap]
  cases s.classes.get? name with
  | none => rfl
  | some c => rfl

/-- **Two sets are the same exactly if they ask for the same**, whatever the class and the
    target. -/
theorem same_iff :
    s.same s' = true ↔ ∀ name target, s.asked name target = s'.asked name target := by
  unfold same
  rw [decide_eq_true_iff]
  constructor
  · intro h name target
    rw [← asked_visible s, ← asked_visible s', h]
  · intro h
    have hclasses : s.visible.classes = s'.visible.classes := by
      refine Listing.ext_get? fun name => ?_
      have hget : ∀ target, (s.get name).get target = (s'.get name).get target := h name
      have hempty : (s.get name).isEmpty = (s'.get name).isEmpty := by
        rw [Bool.eq_iff_iff, ClassTransforms.isEmpty_iff, ClassTransforms.isEmpty_iff]
        simp only [hget]
      rw [get?_visible, get?_visible, hempty, ClassTransforms.visible_ext hget]
    cases hs : s.visible
    cases hs' : s'.visible
    rw [hs, hs'] at hclasses
    exact congrArg mk hclasses

/-- A statement about all requests that ask for something is one about all classes and targets. -/
theorem forall_entries_iff {p : String → Target → Transform → Prop} :
    (∀ e ∈ s.classes.entries, ∀ r ∈ e.2.requests, r.2 ≠ .none → p e.1 r.1 r.2) ↔
      ∀ name target, s.asked name target ≠ .none → p name target (s.asked name target) := by
  constructor
  · intro h name target ht
    exact h _ (mem_entries_of_asked ht) _ (ClassTransforms.mem_requests_of_get ht) ht
  · rintro h ⟨name, c⟩ he ⟨target, t⟩ hr ht
    have hasked : s.asked name target = t := by
      unfold asked
      rw [get_of_mem_entries he, ClassTransforms.get_of_mem_requests hr]
    subst hasked
    exact h name target ht

end TransformSet

/-! ## 5. Asking for more several times -/

namespace TransformSet

variable {s s' : TransformSet} {name : String} {target : Target} {u : Transform}

theorem mem_keys_updateClass {f : ClassTransforms → ClassTransforms} {other : String} :
    other ∈ (s.updateClass name f).classes.keys ↔ other = name ∨ other ∈ s.classes.keys := by
  rw [Listing.mem_keys_iff, Listing.mem_keys_iff]
  by_cases h : other = name
  · subst h
    rw [updateClass, Listing.get?_update_self]
    exact iff_of_true rfl (.inl rfl)
  · rw [updateClass, Listing.get?_update_of_ne _ _ h, or_iff_right h]

/-- A class that is changed twice is changed at once. -/
theorem updateClass_updateClass (s : TransformSet) (name : String)
    (f g : ClassTransforms → ClassTransforms) :
    (s.updateClass name f).updateClass name g = s.updateClass name fun c => g (f c) := by
  refine congrArg mk (Listing.ext_get? fun other => ?_)
  by_cases h : other = name
  · subst h
    simp only [updateClass, Listing.get?_update_self, Option.getD_some]
  · simp only [updateClass, Listing.get?_update_of_ne _ _ h]

/-- **Asking for more at a target of a class changes what is stored there**, and nothing else. -/
theorem stored?_mergeAt (s : TransformSet) (name : String) (target : Target) (t : Transform)
    (other : String) (otherTarget : Target) :
    ((s.mergeAt name target t).get other).stored? otherTarget =
      if other = name ∧ otherTarget = target then some ((s.asked name target).merge t)
      else (s.get other).stored? otherTarget := by
  unfold asked mergeAt
  rw [get_updateClass]
  by_cases hn : other = name
  · rw [if_pos hn, ClassTransforms.stored?_merge, hn]
    simp only [true_and]
  · rw [if_neg hn, if_neg fun h => hn h.1]

/-- Sets with the same classes and the same requests for them are the same. -/
theorem ext_stored? (hkeys : ∀ name, name ∈ s.classes.keys ↔ name ∈ s'.classes.keys)
    (hstored : ∀ name target, (s.get name).stored? target = (s'.get name).stored? target) :
    s = s' := by
  have hclasses : s.classes = s'.classes := by
    refine Listing.ext_get? fun name => ?_
    have hsome := hkeys name
    have hget : s.get name = s'.get name := ClassTransforms.ext_stored? (hstored name)
    rw [Listing.mem_keys_iff, Listing.mem_keys_iff] at hsome
    unfold get get? at hget
    cases h : s.classes.get? name <;> cases h' : s'.classes.get? name <;> simp_all
  cases s
  cases s'
  exact congrArg mk hclasses

/-- Everything that a set stores: class, target and request. -/
def stored (s : TransformSet) : List (String × Target × Transform) :=
  s.classes.entries.flatMap fun e => e.2.requests.map fun r => (e.1, r)

theorem mem_stored_iff : (name, target, u) ∈ s.stored ↔
    ∃ c, s.get? name = some c ∧ c.stored? target = some u := by
  simp only [stored, List.mem_flatMap, List.mem_map, Prod.mk.injEq, Prod.exists]
  constructor
  · rintro ⟨_, c, he, _, _, hr, rfl, rfl, rfl⟩
    exact ⟨c, Listing.mem_entries_iff.1 he, ClassTransforms.mem_requests_iff.1 hr⟩
  · rintro ⟨c, hc, ht⟩
    exact ⟨name, c, Listing.mem_entries_iff.2 hc, target, u,
      ClassTransforms.mem_requests_iff.2 ht, rfl, rfl, rfl⟩

/-- What is asked for is stored. -/
theorem asked_mem_stored (h : s.asked name target ≠ .none) :
    (name, target, s.asked name target) ∈ s.stored :=
  mem_stored_iff.2 ⟨_, Listing.mem_entries_iff.1 (mem_entries_of_asked h),
    ClassTransforms.mem_requests_iff.1 (ClassTransforms.mem_requests_of_get h)⟩

/-- What is stored is asked for. -/
theorem asked_of_mem_stored (h : (name, target, u) ∈ s.stored) : s.asked name target = u := by
  obtain ⟨c, hc, ht⟩ := mem_stored_iff.1 h
  unfold asked get
  rw [hc, Option.getD_some, ClassTransforms.get_eq_stored?, ht, Option.getD_some]

/-- Requests asked for one by one, under other names: `g` tells the class, `f` the target. -/
def askEach (g : String → String) (f : String → Target → Target)
    (requests : List (String × Target × Transform)) (s : TransformSet) : TransformSet :=
  requests.foldl (fun s r => s.mergeAt (g r.1) (f r.1 r.2.1) r.2.2) s

variable {g : String → String} {f : String → Target → Target}
  {requests : List (String × Target × Transform)}

/-- **What a set asks for in the end is the join** of what it asked for and of the requests that
    came to the class and the target. -/
theorem asked_askEach_le_iff : (askEach g f requests s).asked name target ≤ u ↔
    s.asked name target ≤ u ∧
      ∀ r ∈ requests, g r.1 = name ∧ f r.1 r.2.1 = target → r.2.2 ≤ u := by
  induction requests generalizing s with
  | nil => simp only [askEach, List.foldl_nil, List.not_mem_nil, false_imp_iff, implies_true,
      and_true]
  | cons r requests ih =>
      refine ih.trans ?_
      rw [asked_mergeAt, List.forall_mem_cons, ← and_assoc]
      refine and_congr_left' ?_
      split
      · rename_i h
        rw [← h.1, ← h.2, Transform.merge_le_iff]
        simp only [and_self, forall_const]
      · rename_i h
        simp only [eq_comm (a := g r.1), eq_comm (a := f r.1 r.2.1), h, false_imp_iff, and_true]

/-- The classes are those that were stored, and those that requests came to. -/
theorem mem_keys_askEach : name ∈ (askEach g f requests s).classes.keys ↔
    name ∈ s.classes.keys ∨ ∃ r ∈ requests, g r.1 = name := by
  induction requests generalizing s with
  | nil => simp only [askEach, List.foldl_nil, List.not_mem_nil, false_and, exists_false, or_false]
  | cons r requests ih =>
      refine ih.trans ?_
      simp only [mergeAt, mem_keys_updateClass, List.mem_cons, exists_eq_or_imp]
      rw [eq_comm (a := name), or_assoc, or_left_comm]

/-- The targets are those that were stored, and those that requests came to. -/
theorem isSome_stored?_askEach :
    (((askEach g f requests s).get name).stored? target).isSome = true ↔
      ((s.get name).stored? target).isSome = true ∨
        ∃ r ∈ requests, g r.1 = name ∧ f r.1 r.2.1 = target := by
  induction requests generalizing s with
  | nil => simp only [askEach, List.foldl_nil, List.not_mem_nil, false_and, exists_false, or_false]
  | cons r requests ih =>
      refine ih.trans ?_
      simp only [stored?_mergeAt, List.mem_cons, exists_eq_or_imp]
      rw [← or_assoc]
      refine or_congr_left ?_
      split
      · rename_i h
        exact iff_of_true rfl (.inr ⟨h.1.symm, h.2.symm⟩)
      · rename_i h
        rw [eq_comm (a := g r.1), eq_comm (a := f r.1 r.2.1), or_iff_left h]

/-- **Sets are the same if they store requests for the same targets and ask for the same.** -/
theorem ext_asked (hkeys : ∀ name, name ∈ s.classes.keys ↔ name ∈ s'.classes.keys)
    (hsome : ∀ name target, ((s.get name).stored? target).isSome = true ↔
      ((s'.get name).stored? target).isSome = true)
    (hasked : ∀ name target, s.asked name target = s'.asked name target) : s = s' := by
  refine ext_stored? hkeys fun name target => ?_
  have hsome := hsome name target
  have hasked := hasked name target
  simp only [asked, ClassTransforms.get_eq_stored?] at hasked
  revert hsome hasked
  cases (s.get name).stored? target <;> cases (s'.get name).stored? target <;> simp

/-- **The order of the requests does not matter**, nor does it matter how often one is met. -/
theorem askEach_congr {requests' : List (String × Target × Transform)}
    (h : ∀ r, r ∈ requests ↔ r ∈ requests') : askEach g f requests s = askEach g f requests' s := by
  refine ext_asked (fun name => ?_) (fun name target => ?_) fun name target => ?_
  · rw [mem_keys_askEach, mem_keys_askEach]
    simp only [h]
  · rw [isSome_stored?_askEach, isSome_stored?_askEach]
    simp only [h]
  · refine Transform.eq_of_le_iff fun u => ?_
    rw [asked_askEach_le_iff, asked_askEach_le_iff]
    simp only [h]

/-- Requests for one class are asked for at once. -/
theorem foldl_mergeAt (name : String) (f : Target → Target) (requests : List (Target × Transform))
    (s : TransformSet) (h : ClassTransforms → ClassTransforms) :
    requests.foldl (fun s r => s.mergeAt name (f r.1) r.2) (s.updateClass name h) =
      s.updateClass name fun c => requests.foldl (fun c r => c.merge (f r.1) r.2) (h c) := by
  induction requests generalizing h with
  | nil => rfl
  | cons r requests ih => rw [List.foldl_cons, mergeAt, updateClass_updateClass, ih]; rfl

/-- **Asking for everything that a set stores** is asking for it class by class. -/
theorem askEach_stored (g : String → String) (f : String → Target → Target)
    (s out : TransformSet) : askEach g f s.stored out =
      s.classes.entries.foldl (fun out e => out.updateClass (g e.1) fun c =>
        e.2.requests.foldl (fun c r => c.merge (f e.1 r.1) r.2) c) out := by
  unfold askEach stored
  rw [List.foldl_flatMap]
  congr 1
  funext out e
  -- A class stores a request for itself, so that it gets its place even if it asks for nothing.
  have hcons : e.2.requests = (.self, e.2.self) :: e.2.requests.tail := rfl
  rw [List.foldl_map, hcons, List.foldl_cons]
  exact foldl_mergeAt (g e.1) (f e.1) e.2.requests.tail out _

/-! ## 6. Merging -/

/-- Requests asked for one by one, each under its own names. -/
def askAll (s : TransformSet) (requests : List (String × Target × Transform)) : TransformSet :=
  askEach id (fun _ target => target) requests s

theorem askAll_append (s : TransformSet) (requests requests' : List (String × Target × Transform)) :
    s.askAll (requests ++ requests') = (s.askAll requests).askAll requests' := List.foldl_append

theorem askAll_congr (s : TransformSet) {requests' : List (String × Target × Transform)}
    (h : ∀ r, r ∈ requests ↔ r ∈ requests') : s.askAll requests = s.askAll requests' :=
  askEach_congr h

theorem asked_askAll_le_iff : (s.askAll requests).asked name target ≤ u ↔
    s.asked name target ≤ u ∧ ∀ r ∈ requests, r.1 = name ∧ r.2.1 = target → r.2.2 ≤ u :=
  asked_askEach_le_iff

theorem mem_keys_askAll : name ∈ (s.askAll requests).classes.keys ↔
    name ∈ s.classes.keys ∨ ∃ r ∈ requests, r.1 = name := mem_keys_askEach

theorem isSome_stored?_askAll : (((s.askAll requests).get name).stored? target).isSome = true ↔
    ((s.get name).stored? target).isSome = true ∨
      ∃ r ∈ requests, r.1 = name ∧ r.2.1 = target := isSome_stored?_askEach

/-- **Merging a set is asking for everything that it stores.** -/
theorem merge_eq_askAll (s t : TransformSet) : s.merge t = s.askAll t.stored :=
  (askEach_stored id (fun _ target => target) t s).symm

/-- **Two sets merged ask for what each of them asks for.** -/
theorem asked_merge (s t : TransformSet) (name : String) (target : Target) :
    (s.merge t).asked name target = (s.asked name target).merge (t.asked name target) := by
  refine Transform.eq_of_le_iff fun u => ?_
  rw [merge_eq_askAll, asked_askAll_le_iff, Transform.merge_le_iff]
  refine and_congr_right' ⟨fun h => ?_, ?_⟩
  · by_cases hne : t.asked name target = .none
    · rw [hne]
      exact Transform.none_le u
    · exact h _ (asked_mem_stored hne) ⟨rfl, rfl⟩
  · rintro h ⟨_, _, v⟩ hr ⟨rfl, rfl⟩
    rwa [← asked_of_mem_stored hr]

/-- A request is stored for a target if the class is, and something is stored there. -/
theorem exists_mem_stored_iff : (∃ r ∈ s.stored, r.1 = name ∧ r.2.1 = target) ↔
    name ∈ s.classes.keys ∧ ((s.get name).stored? target).isSome = true := by
  have hstored : (∃ r ∈ s.stored, r.1 = name ∧ r.2.1 = target) ↔
      ∃ u, (name, target, u) ∈ s.stored := by
    simp only [Prod.exists]
    exact ⟨by rintro ⟨_, _, u, hr, rfl, rfl⟩; exact ⟨u, hr⟩, fun ⟨u, hu⟩ => ⟨_, _, u, hu, rfl, rfl⟩⟩
  rw [hstored, Listing.mem_keys_iff]
  change _ ↔ (s.get? name).isSome = true ∧ _
  simp only [mem_stored_iff, get, Option.isSome_iff_exists]
  cases s.get? name with
  | none => simp
  | some c => simp

/-- The classes that requests are stored for are the classes that are stored. -/
theorem exists_stored_class_iff : (∃ r ∈ s.stored, r.1 = name) ↔ name ∈ s.classes.keys := by
  constructor
  · rintro ⟨r, hr, rfl⟩
    exact (exists_mem_stored_iff.1 ⟨r, hr, rfl, rfl⟩).1
  · intro h
    obtain ⟨r, hr, hname, -⟩ : ∃ r ∈ s.stored, r.1 = name ∧ r.2.1 = .self :=
      exists_mem_stored_iff.2 ⟨h, rfl⟩
    exact ⟨r, hr, hname⟩

/-- **Asking for all that requests come to is asking for the requests.** -/
theorem askAll_stored (s : TransformSet) (requests : List (String × Target × Transform)) :
    s.askAll (({} : TransformSet).askAll requests).stored = s.askAll requests := by
  have hclasses : ∀ name, name ∈ (({} : TransformSet).askAll requests).classes.keys ↔
      ∃ r ∈ requests, r.1 = name :=
    fun name => mem_keys_askAll.trans (or_iff_right List.not_mem_nil)
  refine ext_asked (fun name => ?_) (fun name target => ?_) fun name target => ?_
  · rw [mem_keys_askAll, mem_keys_askAll, exists_stored_class_iff, hclasses]
  · rw [isSome_stored?_askAll, isSome_stored?_askAll, exists_mem_stored_iff, hclasses,
      isSome_stored?_askAll]
    constructor
    · rintro (h | ⟨-, h | h⟩)
      · exact .inl h
      · exact .inl (ClassTransforms.isSome_stored?_of_empty h)
      · exact .inr h
    · rintro (h | ⟨r, hr, hname, htarget⟩)
      · exact .inl h
      · exact .inr ⟨⟨r, hr, hname⟩, .inr ⟨r, hr, hname, htarget⟩⟩
  · rw [← merge_eq_askAll, asked_merge]
    refine Transform.eq_of_le_iff fun u => ?_
    rw [Transform.merge_le_iff, asked_askAll_le_iff, asked_askAll_le_iff, asked_empty]
    simp only [Transform.none_le, true_and]

/-! ## 7. The order of sets -/

/-- A set is below another one if it asks for less, whatever the class and the target. -/
instance : Preorder TransformSet := .lift asked

theorem le_iff {s t : TransformSet} :
    s ≤ t ↔ ∀ name target, s.asked name target ≤ t.asked name target := Iff.rfl

/-- **A set is below another one exactly if merging it makes no difference.** -/
theorem le_iff_same {s t : TransformSet} : s ≤ t ↔ (t.merge s).same t = true := by
  rw [le_iff, same_iff]
  refine forall₂_congr fun name target => ?_
  rw [asked_merge, Transform.merge_comm, Transform.le_iff]

end TransformSet

end ClassAccess
