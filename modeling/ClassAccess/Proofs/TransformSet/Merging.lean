import ClassAccess.Proofs.TransformSet.Lookup

/-!
# Merging transform sets

Sets are merged two by two. Wherever one looks, what is asked for in the end is the join of what
each of the sets asks for, and that is all that matters about the result.

* `TransformSet.MergeOf` -- a set in which one finds, wherever one looks, what two sets ask for
  together;
* `merge_le_iff`, `same_iff_le` -- in the order of sets **merging is the join**, and sets that are
  below the same ones are the same;
* `Merging` -- sets to be merged, in some order and somehow grouped; `Merging.result_le_iff` -- the
  result is the join of them all;
* `merge_mergeOf` -- all of it together.
-/

namespace ClassAccess

/-! ## 1. Looking up -/

namespace TransformSet

variable {s s' t u : TransformSet}

/-- **A set in which one finds what two sets ask for together**, whatever the class and the member:
    for the class itself, for all its fields and for all its methods, for a single field and a
    single method, and for what becomes of them. What is not stored is asked for nothing. -/
structure MergeOf (s t out : TransformSet) : Prop where
  self : ∀ name, (out.get name).self = (s.get name).self.merge (t.get name).self
  allFields : ∀ name,
    (out.get name).allFields = (s.get name).allFields.merge (t.get name).allFields
  allMethods : ∀ name,
    (out.get name).allMethods = (s.get name).allMethods.merge (t.get name).allMethods
  field : ∀ name field,
    (out.get name).field field = ((s.get name).field field).merge ((t.get name).field field)
  method : ∀ name signature, (out.get name).method signature =
    ((s.get name).method signature).merge ((t.get name).method signature)
  effectiveField : ∀ name field, (out.get name).effectiveField field =
    ((s.get name).effectiveField field).merge ((t.get name).effectiveField field)
  effectiveMethod : ∀ name signature, (out.get name).effectiveMethod signature =
    ((s.get name).effectiveMethod signature).merge ((t.get name).effectiveMethod signature)

/-- **Merging two sets gives what they ask for together.** What becomes of a member is asked for in
    two places, of which each is merged for itself. -/
theorem mergeOf_merge (s t : TransformSet) : MergeOf s t (s.merge t) := by
  have hallFields : ∀ name, ((s.merge t).get name).allFields =
      (s.get name).allFields.merge (t.get name).allFields :=
    fun name => asked_merge s t name .allFields
  have hallMethods : ∀ name, ((s.merge t).get name).allMethods =
      (s.get name).allMethods.merge (t.get name).allMethods :=
    fun name => asked_merge s t name .allMethods
  have hfield : ∀ name field, ((s.merge t).get name).field field =
      ((s.get name).field field).merge ((t.get name).field field) :=
    fun name field => asked_merge s t name (.field field)
  have hmethod : ∀ name signature, ((s.merge t).get name).method signature =
      ((s.get name).method signature).merge ((t.get name).method signature) :=
    fun name signature => asked_merge s t name (.method signature)
  refine ⟨fun name => asked_merge s t name .self, hallFields, hallMethods, hfield, hmethod,
    fun name field => ?_, fun name signature => ?_⟩
  · rw [ClassTransforms.effectiveField, hallFields, hfield]
    exact sup_sup_sup_comm _ _ _ _
  · rw [ClassTransforms.effectiveMethod, hallMethods, hmethod]
    exact sup_sup_sup_comm _ _ _ _

/-! ## 2. The join -/

/-- **Merging is the join** of sets. -/
theorem merge_le_iff : s.merge t ≤ u ↔ s ≤ u ∧ t ≤ u := by
  simp only [le_iff, asked_merge, Transform.merge_le_iff, forall_and]

theorem empty_le (s : TransformSet) : {} ≤ s := by
  rw [le_iff]
  intro name target
  rw [asked_empty]
  exact Transform.none_le _

/-- A set is below the sets that are the same as one above it. -/
theorem le_of_same (h : s.same s' = true) : s ≤ s' := by
  rw [le_iff]
  intro name target
  rw [same_iff.1 h name target]

theorem same_symm (h : s.same s' = true) : s'.same s = true :=
  same_iff.2 fun name target => (same_iff.1 h name target).symm

/-- **Sets that are below the same ones are the same.** -/
theorem same_iff_le : s.same s' = true ↔ ∀ u, s ≤ u ↔ s' ≤ u := by
  constructor
  · intro h u
    exact ⟨(le_of_same (same_symm h)).trans, (le_of_same h).trans⟩
  · intro h
    refine same_iff.2 fun name target => ?_
    exact le_antisymm ((h s').2 le_rfl name target) ((h s).1 le_rfl name target)

/-! ## 3. Merging any number of sets -/

/-- Sets to be merged, in some order and somehow grouped; none of them may be there. -/
inductive Merging
  | nothing
  | one (s : TransformSet)
  | both (a b : Merging)

namespace Merging

/-- The sets that are merged, each as often as it is met. -/
def sets : Merging → List TransformSet
  | nothing => []
  | one s => [s]
  | both a b => a.sets ++ b.sets

/-- The set that they are merged to. -/
def result : Merging → TransformSet
  | nothing => {}
  | one s => s
  | both a b => a.result.merge b.result

/-- **The result is the join of all sets that are merged.** -/
theorem result_le_iff (m : Merging) : m.result ≤ u ↔ ∀ s ∈ m.sets, s ≤ u := by
  induction m with
  | nothing => exact iff_of_true (empty_le u) fun _ h => absurd h List.not_mem_nil
  | one s => rw [result, sets, List.forall_mem_singleton]
  | both a b iha ihb => rw [result, sets, merge_le_iff, iha, ihb, List.forall_mem_append]

end Merging

/-- Sets merged one after the other. -/
theorem foldl_merge_le_iff {sets : List TransformSet} :
    sets.foldl merge s ≤ u ↔ s ≤ u ∧ ∀ t ∈ sets, t ≤ u := by
  induction sets generalizing s with
  | nil => simp only [List.foldl_nil, List.not_mem_nil, false_imp_iff, implies_true, and_true]
  | cons t sets ih => rw [List.foldl_cons, ih, merge_le_iff, List.forall_mem_cons, and_assoc]

/-- Sets of which each is the same as one of others are all below what the others are below. -/
theorem forall_le_of_same {sets sets' : List TransformSet}
    (h : ∀ s ∈ sets, ∃ s' ∈ sets', s.same s' = true) (hu : ∀ s' ∈ sets', s' ≤ u) :
    ∀ s ∈ sets, s ≤ u := by
  intro s hs
  obtain ⟨s', hs', hsame⟩ := h s hs
  exact (le_of_same hsame).trans (hu s' hs')

/-- **Merging is the join of sets.** What one finds in two sets merged is, wherever one looks, what
    one finds in the two, merged. So merging does not depend on order, grouping or repetition, and
    the empty set makes no difference; and however some sets are merged, the result is the same as
    that of merging them one after the other, as long as the same sets are merged. -/
theorem merge_mergeOf :
    (∀ s t : TransformSet, MergeOf s t (s.merge t)) ∧
      (∀ s t : TransformSet, (s.merge t).same (t.merge s) = true) ∧
      (∀ s t u : TransformSet, ((s.merge t).merge u).same (s.merge (t.merge u)) = true) ∧
      (∀ s : TransformSet, (s.merge s).same s = true) ∧
      (∀ s : TransformSet, (s.merge {}).same s = true ∧ (merge {} s).same s = true) ∧
      ∀ (sets : List TransformSet) (m : Merging),
        (∀ s ∈ m.sets, ∃ t ∈ sets, s.same t = true) → (∀ t ∈ sets, ∃ s ∈ m.sets, t.same s = true) →
          m.result.same (sets.foldl merge {}) = true := by
  refine ⟨mergeOf_merge, fun s t => ?_, fun s t u => ?_, fun s => ?_, fun s => ⟨?_, ?_⟩,
    fun sets m hm hsets => ?_⟩
  · exact same_iff_le.2 fun v => by rw [merge_le_iff, merge_le_iff, and_comm]
  · exact same_iff_le.2 fun v => by simp only [merge_le_iff, and_assoc]
  · exact same_iff_le.2 fun v => by rw [merge_le_iff, and_self]
  · exact same_iff_le.2 fun v => by rw [merge_le_iff, and_iff_left (empty_le v)]
  · exact same_iff_le.2 fun v => by rw [merge_le_iff, and_iff_right (empty_le v)]
  · refine same_iff_le.2 fun v => ?_
    rw [m.result_le_iff, foldl_merge_le_iff, and_iff_right (empty_le v)]
    exact ⟨forall_le_of_same hsets, forall_le_of_same hm⟩

/-- A set that asks to make one field visible to subclasses. -/
def protectedField : TransformSet :=
  ({} : TransformSet).mergeAt "a/B" (.field "f") ⟨.protectedAccess, .unchanged⟩

/-- A set that asks for the same field not to be final. -/
def variableField : TransformSet :=
  ({} : TransformSet).mergeAt "a/B" (.field "f") ⟨.unchanged, .remove⟩

/-- Both, the second one twice: once as it is, and once with a class stored without requests. -/
def regrouped : Merging :=
  .both (.one (variableField.mergeAt "c/D" .self .none))
    (.both (.both .nothing (.one variableField)) (.one protectedField))

/-- Merging in another order and grouping gives a set that stores more, and asks for the same. -/
theorem merge_mergeOf_regrouped :
    (∀ s ∈ regrouped.sets, ∃ t ∈ [protectedField, variableField], s.same t = true) ∧
      (∀ t ∈ [protectedField, variableField], ∃ s ∈ regrouped.sets, t.same s = true) ∧
      regrouped.result ≠ [protectedField, variableField].foldl merge {} ∧
      regrouped.result.same ([protectedField, variableField].foldl merge {}) = true := by
  have hm : ∀ s ∈ regrouped.sets, ∃ t ∈ [protectedField, variableField], s.same t = true := by
    decide +kernel
  have hsets : ∀ t ∈ [protectedField, variableField], ∃ s ∈ regrouped.sets, t.same s = true := by
    decide +kernel
  obtain ⟨-, -, -, -, -, hresult⟩ := merge_mergeOf
  exact ⟨hm, hsets, by decide +kernel, hresult _ _ hm hsets⟩

end TransformSet

end ClassAccess
