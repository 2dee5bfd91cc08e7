import ClassAccess.Access.Transform
import Mathlib.Order.Lattice

/-!
# The order of access transforms

A transform is below another one if asking for both is asking for the other one. In this order
merging is the join, and asking for nothing is the bottom:

* `le_iff` -- the order, said by merging;
* `merge_le_iff` -- **both requests are below a third one if each of them is**;
* `visibility_of_le` -- what asks for no visibility is above nothing that does;
* `mergeAll`, `mergeAll_le_iff` -- the same for any number of requests;
* `eq_of_le_iff` -- a transform is known by what it is below.
-/

namespace ClassAccess.Transform

instance : Max Transform := ⟨merge⟩

instance : SemilatticeSup Transform := SemilatticeSup.mk' merge_comm merge_assoc merge_self

variable {a b u : Transform}

theorem le_iff : a ≤ b ↔ a.merge b = b := sup_eq_right.symm

theorem none_le (a : Transform) : none ≤ a := le_iff.2 (none_merge a)

/-- **Merging is the join.** -/
theorem merge_le_iff : a.merge b ≤ u ↔ a ≤ u ∧ b ≤ u := sup_le_iff

theorem merge_le_merge {a' b' : Transform} (ha : a ≤ a') (hb : b ≤ b') :
    a.merge b ≤ a'.merge b' := sup_le_sup ha hb

/-- Where no visibility is asked for, nothing smaller asks for one. -/
theorem visibility_of_le (h : a ≤ b) (hb : b.visibility = .unchanged) :
    a.visibility = .unchanged := by
  have hmax : a.visibility.max b.visibility = b.visibility :=
    congrArg Transform.visibility (le_iff.1 h)
  rw [hb] at hmax
  cases hv : a.visibility with
  | unchanged => rfl
  | privateAccess | packageAccess | protectedAccess | publicAccess =>
      rw [hv] at hmax
      cases hmax

/-- All of some requests at once. -/
def mergeAll (requests : List Transform) : Transform := requests.foldr merge none

/-- **Merging them all is the join of them all.** -/
theorem mergeAll_le_iff {requests : List Transform} :
    mergeAll requests ≤ u ↔ ∀ t ∈ requests, t ≤ u := by
  induction requests with
  | nil => simp only [mergeAll, List.foldr_nil, none_le, List.not_mem_nil, false_imp_iff,
      implies_true]
  | cons t requests ih =>
      rw [List.forall_mem_cons, ← ih]
      exact merge_le_iff

/-- Transforms that are below the same ones are the same. -/
theorem eq_of_le_iff (h : ∀ u, a ≤ u ↔ b ≤ u) : a = b := eq_of_forall_ge_iff h

end ClassAccess.Transform
