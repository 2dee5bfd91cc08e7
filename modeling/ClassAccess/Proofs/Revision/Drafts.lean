import ClassAccess.Proofs.ClassFile.Rereading
import ClassAccess.Proofs.Revision.Changes
import ClassAccess.Proofs.Revision.Patches

/-!
# Drafts that came out of changes

A draft remembers only patches and a pool. What they have to do with the changes that were made is
an invariant of making changes:

* `Change.Asks` -- the patch that a change asks for, once its constant is in the pool;
* `Draft.Sound` -- **every change that was made has its patch, and every patch has its change**; the
  pool has grown by method handles;
* `sound_apply`, `sound_applyAll` -- one change keeps this, and so do all of them.
-/

namespace ClassAccess

open Outcome

/-! ## 1. What a change asks for -/

/-- The patch that a change asks for, where its constant is found in `pool`. -/
inductive Change.Asks (pool : ConstantPool) : Change → Nat → Patch → Prop
  | write (offset : Nat) (p : Patch) : Asks pool (.write offset p) offset p
  | point (slot : Placed UInt16) (kind : HandleKind) (before : UInt8) (reference index : UInt16)
      (get : pool.get slot.value = .ok (.methodHandle before reference))
      (find : pool.find? (.methodHandle kind.code reference) = some index) :
      Asks pool (.point slot kind) slot.offset (.word index)

theorem Change.Asks.mono {pool pool' : ConstantPool} (h : pool.Extends pool') {c : Change} {o : Nat}
    {p : Patch} (ha : c.Asks pool o p) : c.Asks pool' o p := by
  cases ha with
  | write => exact .write o p
  | point slot kind before reference index get find =>
      exact .point slot kind before reference index (h.within.get get) (h.find _ _ find)

namespace Draft

/-! ## 2. The invariant -/

/-- What holds of a draft of `l` once the changes `made` were made. -/
structure Sound (l : Layout) (d : Draft) (made : List Change) : Prop where
  healthy : d.pool.Healthy
  grown : ∃ new, d.pool = l.pool.grown new ∧ ∀ c ∈ new, c.isHandle = true
  settled : ∀ c ∈ made, ∃ o p, c.Asks d.pool o p ∧ d.patches[o]? = some p
  sourced : ∀ o p, d.patches[o]? = some p → ∃ c ∈ made, c.Asks d.pool o p

variable {l : Layout} {d d' : Draft} {made : List Change} {c : Change}

theorem Sound.within (h : d.Sound l made) : l.pool.Within d.pool := by
  obtain ⟨new, hnew, -⟩ := h.grown
  rw [hnew]
  exact l.pool.within_grown new

theorem sound_draft (l : Layout) (h : l.pool.Healthy) : l.draft.Sound l [] where
  healthy := h
  grown := ⟨[], l.pool.grown_nil.symm, fun _ hc => absurd hc List.not_mem_nil⟩
  settled := fun _ hc => absurd hc List.not_mem_nil
  sourced := fun o p hp => by
    have hnone : (∅ : Std.TreeMap Nat Patch)[o]? = none := Std.TreeMap.getElem?_emptyc
    rw [show l.draft.patches[o]? = none from hnone] at hp
    cases hp

/-- There are patches exactly if changes were made. -/
theorem Sound.isEmpty_iff (h : d.Sound l made) : d.patches.isEmpty = true ↔ made = [] := by
  constructor
  · intro hempty
    refine List.eq_nil_iff_forall_not_mem.2 fun c hc => ?_
    obtain ⟨o, p, -, hp⟩ := h.settled c hc
    rw [Std.TreeMap.getElem?_of_isEmpty hempty] at hp
    cases hp
  · rintro rfl
    refine Std.TreeMap.isEmpty_iff_forall_not_mem.2 fun o ho => ?_
    obtain ⟨p, hp⟩ := Option.isSome_iff_exists.1 (Std.TreeMap.mem_iff_isSome_getElem?.1 ho)
    obtain ⟨c, hc, -⟩ := h.sourced o p hp
    cases hc

/-- Contents that are noted are the contents of their place, and there were no others. -/
theorem note_ok {o : Nat} {p : Patch} (h : d.note o p = .ok d') :
    d'.pool = d.pool ∧ (∀ o', d'.patches[o']? = if o' = o then some p else d.patches[o']?) ∧
      ∀ p', d.patches[o]? = some p' → p' = p := by
  have hinsert : ∀ o', (d.patches.insert o p)[o']? =
      if o' = o then some p else d.patches[o']? := by
    intro o'
    rw [Std.TreeMap.getElem?_insert]
    by_cases ho : o' = o
    · rw [if_pos ho, ho, if_pos (Std.ReflCmp.compare_self)]
    · rw [if_neg ho, if_neg fun he => ho (Std.LawfulEqCmp.eq_of_compare he).symm]
  unfold note at h
  split at h
  · rename_i earlier hearlier
    split at h
    · rename_i he
      cases h
      refine ⟨rfl, hinsert, fun p' hp' => ?_⟩
      rw [hearlier] at hp'
      cases hp'
      exact he
    · cases h
  · rename_i hnone
    cases h
    refine ⟨rfl, hinsert, fun p' hp' => ?_⟩
    rw [hnone] at hp'
    cases hp'

/-- Noting what a change asks for keeps the invariant. -/
theorem Sound.note {pool : ConstantPool} {o : Nat} {p : Patch} (h : d.Sound l made)
    (hhealthy : pool.Healthy)
    (hgrown : ∃ new, pool = l.pool.grown new ∧ ∀ c ∈ new, c.isHandle = true)
    (hext : d.pool.Extends pool) (ha : c.Asks pool o p)
    (hn : note { d with pool := pool } o p = .ok d') : d'.Sound l (made ++ [c]) := by
  obtain ⟨hpool, hpatches, hsame⟩ := note_ok hn
  have hpool' : d'.pool = pool := hpool
  refine ⟨hpool' ▸ hhealthy, hpool' ▸ hgrown, fun c' hc' => ?_, fun o' p' hp' => ?_⟩
  · rw [hpool']
    rcases List.mem_append.1 hc' with hc' | hc'
    · obtain ⟨o', p', ha', hp'⟩ := h.settled c' hc'
      refine ⟨o', p', ha'.mono hext, ?_⟩
      rw [hpatches]
      split
      · rename_i ho
        rw [ho] at hp'
        rw [hsame p' hp']
      · exact hp'
    · rw [List.mem_singleton.1 hc']
      exact ⟨o, p, ha, by rw [hpatches, if_pos rfl]⟩
  · rw [hpool']
    rw [hpatches] at hp'
    split at hp'
    · rename_i ho
      cases hp'
      exact ⟨c, List.mem_append_right _ (List.mem_singleton_self c), ho ▸ ha⟩
    · obtain ⟨c', hc', ha'⟩ := h.sourced o' p' hp'
      exact ⟨c', List.mem_append_left _ hc', ha'.mono hext⟩

/-- A handle is pointed to in three steps: its constant is read, the new one found or added, the
    slot written. -/
theorem point_ok {slot : Placed UInt16} {kind : HandleKind}
    (h : d.apply (.point slot kind) = .ok d') :
    ∃ before reference index pool, d.pool.get slot.value = .ok (.methodHandle before reference) ∧
      d.pool.intern (.methodHandle kind.code reference) = .ok (index, pool) ∧
      note { d with pool := pool } slot.offset (.word index) = .ok d' := by
  unfold apply at h
  simp only at h
  split at h
  · cases h
  · rename_i before reference hget
    split at h
    · cases h
    · rename_i index pool hintern
      exact ⟨before, reference, index, pool, hget, hintern, h⟩
  · cases h

/-- **One change keeps the invariant.** -/
theorem sound_apply (h : d.Sound l made) (hc : d.apply c = .ok d') : d'.Sound l (made ++ [c]) := by
  cases c with
  | refuse fault => cases hc
  | write o p => exact h.note h.healthy h.grown (.refl d.pool) (.write o p) hc
  | point slot kind =>
      obtain ⟨before, reference, index, pool, hget, hintern, hnote⟩ := point_ok hc
      obtain ⟨hfind, hpool⟩ := h.healthy.intern_ok (by nofun) hintern
      rcases hpool with ⟨rfl, -⟩ | ⟨rfl, -, hroom⟩
      · exact h.note h.healthy h.grown (.refl _)
          (.point slot kind before reference index hget hfind) hnote
      · have hext : d.pool.Extends (d.pool.add (.methodHandle kind.code reference)) :=
          ConstantPool.extends_add
        obtain ⟨new, hnew, hhandles⟩ := h.grown
        refine h.note (h.healthy.add hroom) ⟨new ++ [.methodHandle kind.code reference], ?_,
          fun c hc => ?_⟩ hext
          (.point slot kind before reference index (hext.within.get hget) hfind) hnote
        · rw [hnew]
          exact ConstantPool.grown_add _ _ rfl
        · rcases List.mem_append.1 hc with hc | hc
          · exact hhandles c hc
          · rw [List.mem_singleton.1 hc]
            rfl

/-- **All changes keep the invariant.** -/
theorem sound_applyAll {cs : List Change} (h : d.Sound l made) (hcs : d.applyAll cs = .ok d') :
    d'.Sound l (made ++ cs) := by
  induction cs generalizing d made with
  | nil =>
      cases hcs
      rw [List.append_nil]
      exact h
  | cons c cs ih =>
      rw [applyAll_cons] at hcs
      obtain ⟨d₁, hd₁, hcs⟩ := exists_of_bind_ok hcs
      have := ih (sound_apply h hd₁) hcs
      rwa [List.append_assoc, List.singleton_append] at this

end Draft

end ClassAccess
