import ClassAccess.Proofs.Access.Join
import Mathlib.Data.List.Defs

/-!
# Access transforms as masks

Whatever an access transform asks for, it keeps some access flags, drops the others, and gives some
of its own.

* `Masks` -- keeping some flags and giving some, whatever the flags are;
* `Masks.comp`, `Masks.apply_apply` -- two masks after each other are one, and **a mask that is
  applied twice is applied once**;
* `Visibility.masks`, `Finality.masks`, `Transform.masks` -- every request is a mask;
* `Transform.apply_flags` -- **which flags there are after a request**;
* `Transform.apply_of_le` -- **what a request changes, a larger one changes anyway**.
-/

namespace ClassAccess

/-! ## 1. Masks -/

/-- `f` keeps the flags of some word and gives those of another one. -/
def Masks (f : AccessFlags → AccessFlags) : Prop :=
  ∃ kept given, ∀ flags, f flags = (flags &&& kept) ||| given

namespace Masks

theorem or_and (x y z : AccessFlags) : (x ||| y) &&& z = (x &&& z) ||| (y &&& z) :=
  UInt16.toBitVec_inj.1 BitVec.and_or_distrib_right

theorem and_or_absorb (x y : AccessFlags) : (x &&& y) ||| x = x := by
  refine UInt16.toBitVec_inj.1 ?_
  rw [UInt16.toBitVec_or, UInt16.toBitVec_and]
  ext i
  rw [BitVec.getElem_or, BitVec.getElem_and]
  cases x.toBitVec[i] with
  | false => rfl
  | true => exact Bool.or_true _

variable {f g : AccessFlags → AccessFlags}

/-- Flags that are left alone are all kept. -/
theorem unchanged : Masks fun flags => flags :=
  ⟨-1, 0, fun flags => by rw [UInt16.or_zero, UInt16.and_neg_one]⟩

/-- Two masks after each other keep what both keep. -/
theorem comp (hf : Masks f) (hg : Masks g) : Masks (g ∘ f) := by
  obtain ⟨kept, given, hf⟩ := hf
  obtain ⟨kept', given', hg⟩ := hg
  refine ⟨kept &&& kept', (given &&& kept') ||| given', fun flags => ?_⟩
  rw [Function.comp_apply, hg, hf, or_and, UInt16.and_assoc, UInt16.or_assoc]

/-- **A mask that is applied twice is applied once.** -/
theorem apply_apply (hf : Masks f) (flags : AccessFlags) : f (f flags) = f flags := by
  obtain ⟨kept, given, hf⟩ := hf
  rw [hf, hf, or_and, UInt16.and_assoc, UInt16.and_self, UInt16.or_assoc, and_or_absorb]

end Masks

/-! ## 2. Requests -/

theorem Visibility.masks (v : Visibility) : Masks v.apply := by
  unfold apply
  by_cases h : v = .unchanged
  · simp only [if_pos h]
    exact .unchanged
  · simp only [if_neg h]
    exact ⟨~~~mask, v.flag, fun _ => rfl⟩

theorem Finality.masks (f : Finality) : Masks f.apply := by
  cases f with
  | unchanged => exact .unchanged
  | add => exact ⟨-1, flag, fun flags => by rw [apply, UInt16.and_neg_one]⟩
  | remove => exact ⟨~~~flag, 0, fun flags => by rw [apply, UInt16.or_zero]⟩

theorem Transform.masks (t : Transform) : Masks t.apply := t.visibility.masks.comp t.finality.masks

/-- **A request that is granted twice is granted once.** -/
theorem Transform.apply_apply (t : Transform) (flags : AccessFlags) :
    t.apply (t.apply flags) = t.apply flags := t.masks.apply_apply flags

/-! ## 3. The flags after a request -/

/-- A change of finality leaves all other flags as they are. -/
theorem Finality.apply_and {m : AccessFlags} (hflag : flag &&& m = 0) (hrest : ~~~flag &&& m = m)
    (f : Finality) (flags : AccessFlags) : f.apply flags &&& m = flags &&& m := by
  cases f with
  | unchanged => rfl
  | add => rw [apply, Masks.or_and, hflag, UInt16.or_zero]
  | remove => rw [apply, UInt16.and_assoc, hrest]

/-- A visibility leaves all flags as they are that do not stand for one. -/
theorem Visibility.apply_and {m : AccessFlags} (hmask : mask &&& m = 0) (hrest : ~~~mask &&& m = m)
    (v : Visibility) (flags : AccessFlags) : v.apply flags &&& m = flags &&& m := by
  have hflag : v.flag &&& m = 0 := by
    have hwithin : v.flag = v.flag &&& mask := by cases v <;> decide
    rw [hwithin, UInt16.and_assoc, hmask, UInt16.and_zero]
  unfold apply
  split
  · rfl
  · rw [Masks.or_and, UInt16.and_assoc, hrest, hflag, UInt16.or_zero]

/-- **The flags after a request.** Of visibility there are those that are asked for, if any are;
    the flag of what is final is set or cleared as it is asked for; all others stay. -/
theorem Transform.apply_flags (t : Transform) (flags : AccessFlags) :
    (t.visibility ≠ .unchanged → t.apply flags &&& Visibility.mask = t.visibility.flag) ∧
      (t.finality = .add → t.apply flags &&& Finality.flag = Finality.flag) ∧
      (t.finality = .remove → t.apply flags &&& Finality.flag = 0) ∧
      t.apply flags &&& ~~~(Visibility.mask ||| Finality.flag) =
        flags &&& ~~~(Visibility.mask ||| Finality.flag) := by
  unfold apply
  refine ⟨fun hv => ?_, fun hf => ?_, fun hf => ?_, ?_⟩
  · have hwithin : t.visibility.flag &&& Visibility.mask = t.visibility.flag := by
      cases t.visibility <;> decide
    have hcleared : ~~~Visibility.mask &&& Visibility.mask = 0 := by decide
    rw [Finality.apply_and (by decide) (by decide), Visibility.apply, if_neg hv, Masks.or_and,
      UInt16.and_assoc, hcleared, UInt16.and_zero, UInt16.zero_or, hwithin]
  · rw [hf, Finality.apply, Masks.or_and, UInt16.and_self, UInt16.and_comm, Masks.and_or_absorb]
  · have hcleared : ~~~Finality.flag &&& Finality.flag = 0 := by decide
    rw [hf, Finality.apply, UInt16.and_assoc, hcleared, UInt16.and_zero]
  · rw [Finality.apply_and (by decide) (by decide), Visibility.apply_and (by decide) (by decide)]

/-! ## 4. A request, and then a larger one -/

/-- Of a visibility nothing is left once another one is granted. -/
theorem Visibility.apply_apply_of_ne {b : Visibility} (hb : b ≠ .unchanged) (a : Visibility)
    (flags : AccessFlags) : b.apply (a.apply flags) = b.apply flags := by
  by_cases ha : a = .unchanged
  · rw [ha]
    rfl
  · have hflag : a.flag &&& ~~~mask = 0 := by cases a <;> decide
    unfold apply
    rw [if_neg hb, if_neg ha, if_neg hb, Masks.or_and, UInt16.and_assoc, UInt16.and_self, hflag,
      UInt16.or_zero]

/-- Of a change of finality nothing is left once one is granted that is preferred. -/
theorem Finality.apply_of_max {a b : Finality} (h : a.max b = b) (flags : AccessFlags) :
    b.apply (a.apply flags) = b.apply flags := by
  by_cases hab : a = b
  · rw [hab]
    exact b.masks.apply_apply flags
  cases a with
  | unchanged => rfl
  | add =>
      cases b with
      | unchanged => cases h
      | add => exact absurd rfl hab
      | remove =>
          show (flags ||| flag) &&& ~~~flag = flags &&& ~~~flag
          rw [Masks.or_and, show flag &&& ~~~flag = 0 from by decide, UInt16.or_zero]
  | remove =>
      cases b with
      | unchanged | add => cases h
      | remove => exact absurd rfl hab

/-- Visibility and finality are granted in any order. -/
theorem Visibility.apply_finality (v : Visibility) (f : Finality) (flags : AccessFlags) :
    v.apply (f.apply flags) = f.apply (v.apply flags) := by
  by_cases hv : v = .unchanged
  · rw [hv]
    rfl
  · unfold apply
    rw [if_neg hv, if_neg hv]
    cases f with
    | unchanged => rfl
    | add =>
        show (flags ||| Finality.flag) &&& ~~~mask ||| v.flag =
          flags &&& ~~~mask ||| v.flag ||| Finality.flag
        rw [Masks.or_and, show Finality.flag &&& ~~~mask = Finality.flag from by decide,
          UInt16.or_assoc, UInt16.or_assoc, UInt16.or_comm Finality.flag]
    | remove =>
        have hflag : v.flag &&& ~~~Finality.flag = v.flag := by cases v <;> decide
        show flags &&& ~~~Finality.flag &&& ~~~mask ||| v.flag =
          (flags &&& ~~~mask ||| v.flag) &&& ~~~Finality.flag
        rw [Masks.or_and, hflag, UInt16.and_assoc, UInt16.and_assoc,
          UInt16.and_comm (~~~Finality.flag)]

/-- **What a request changes, a larger one changes anyway**: granting the one and then the other is
    granting the other. -/
theorem Transform.apply_of_le {a b : Transform} (h : a ≤ b) (flags : AccessFlags) :
    b.apply (a.apply flags) = b.apply flags := by
  have hfinality : a.finality.max b.finality = b.finality :=
    congrArg Transform.finality (le_iff.1 h)
  unfold apply
  rw [Visibility.apply_finality, Finality.apply_of_max hfinality]
  by_cases hb : b.visibility = .unchanged
  · rw [visibility_of_le h hb]
    rfl
  · rw [Visibility.apply_apply_of_ne hb]

end ClassAccess
