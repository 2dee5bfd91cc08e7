import ClassAccess.ConstantPool
import ClassAccess.Proofs.Outcome
import Mathlib.Data.Finset.Card

/-!
# Constant pools that grow

A pool only grows at its end, so what an entry means does not change.

* `ConstantPool.Within` -- one pool has every entry of another one at the same number;
  `Within.get`, `Within.text`, `Within.className`, `Within.nameAndType`, `Within.member` -- it then
  **gives the same answers**;
* `ConstantPool.Healthy` -- the first slot cannot be used, and the numbers of the others fit two
  bytes;
* `ConstantPool.grown` -- a pool with slots added at its end, as every entry adds its
  `Constant.row`;
* `intern_of_mem`, `intern_of_not_mem`, `intern_full` -- **the three outcomes of adding an entry
  that may already be there**;
* `missing` -- those of some entries that are to be added.
-/

namespace ClassAccess

/-- The slots that an entry fills. Behind one that takes two slots stands one that cannot be used.
    -/
def Constant.row (c : Constant) : List Constant := if c.isWide then [c, .unusable] else [c]

theorem Constant.row_of_narrow {c : Constant} (h : c.isWide = false) : c.row = [c] := by
  unfold row
  rw [h]
  rfl

theorem Constant.row_of_wide {c : Constant} (h : c.isWide = true) : c.row = [c, .unusable] := by
  unfold row
  rw [h]
  rfl

theorem Constant.slots_of_narrow {c : Constant} (h : c.isWide = false) : c.slots = 1 := by
  unfold slots
  rw [h]
  rfl

theorem Constant.slots_of_wide {c : Constant} (h : c.isWide = true) : c.slots = 2 := by
  unfold slots
  rw [h]
  rfl

@[simp] theorem Constant.length_row (c : Constant) : c.row.length = c.slots := by
  unfold row slots
  split <;> rfl

theorem Constant.exists_row (c : Constant) : ∃ rest, c.row = c :: rest := by
  unfold row
  split
  · exact ⟨_, rfl⟩
  · exact ⟨_, rfl⟩

namespace ConstantPool

open Outcome

/-! ## 1. A pool within another one -/

/-- Every slot of a pool is the same slot of another one. -/
def Within (pool pool' : ConstantPool) : Prop :=
  ∀ (i : Nat) (c : Constant), pool.slots[i]? = some c → pool'.slots[i]? = some c

variable {pool pool' : ConstantPool}

theorem Within.refl (pool : ConstantPool) : pool.Within pool := fun _ _ h => h

theorem get_eq_ok_iff {index : UInt16} {c : Constant} :
    pool.get index = .ok c ↔ pool.slots[index.toNat]? = some c ∧ c ≠ .unusable := by
  unfold get
  split
  · rename_i h
    simp [h]
  · rename_i h
    rw [h]
    constructor
    · intro hc
      cases hc
    · rintro ⟨hc, hu⟩
      cases hc
      exact absurd rfl hu
  · rename_i d hne h
    rw [h]
    constructor
    · intro hc
      cases hc
      exact ⟨rfl, hne⟩
    · rintro ⟨hc, _⟩
      cases hc
      rfl

theorem Within.get (h : pool.Within pool') {index : UInt16} {c : Constant}
    (hc : pool.get index = .ok c) : pool'.get index = .ok c := by
  rw [get_eq_ok_iff] at hc ⊢
  exact ⟨h _ _ hc.1, hc.2⟩

/-- What follows from one entry of a pool follows from it in a pool that has the entry too. -/
theorem Within.bind {α : Type} (h : pool.Within pool') {index : UInt16}
    {f f' : Constant → Except Fault α} {a : α} (ha : (pool.get index >>= f) = .ok a)
    (hf : ∀ c, f c = .ok a → f' c = .ok a) : (pool'.get index >>= f') = .ok a := by
  obtain ⟨c, hc, ha⟩ := exists_of_bind_ok ha
  rw [h.get hc]
  exact hf c ha

theorem Within.text (h : pool.Within pool') {index : UInt16} {value : String}
    (hv : pool.text index = .ok value) : pool'.text index = .ok value :=
  h.bind hv fun _ hc => hc

theorem Within.className (h : pool.Within pool') {index : UInt16} {name : String}
    (hn : pool.className index = .ok name) : pool'.className index = .ok name := by
  refine h.bind hn fun c hc => ?_
  cases c
  case classEntry => exact h.text hc
  all_goals cases hc

theorem Within.className? (h : pool.Within pool') {index : UInt16} {name : Option String}
    (hn : pool.className? index = .ok name) : pool'.className? index = .ok name := by
  unfold ConstantPool.className? at hn ⊢
  split
  · rename_i h0
    rwa [if_pos h0] at hn
  · rename_i h0
    rw [if_neg h0] at hn
    obtain ⟨n, hn', rfl⟩ := exists_of_map_ok hn
    rw [h.className hn']
    rfl

theorem Within.text? (h : pool.Within pool') {index : UInt16} {value : Option String}
    (hv : pool.text? index = .ok value) : pool'.text? index = .ok value := by
  unfold ConstantPool.text? at hv ⊢
  split
  · rename_i h0
    rwa [if_pos h0] at hv
  · rename_i h0
    rw [if_neg h0] at hv
    obtain ⟨v, hv', rfl⟩ := exists_of_map_ok hv
    rw [h.text hv']
    rfl

theorem Within.nameAndType (h : pool.Within pool') {index : UInt16} {p : String × String}
    (hp : pool.nameAndType index = .ok p) : pool'.nameAndType index = .ok p := by
  refine h.bind hp fun c hc => ?_
  cases c
  case nameAndType name descriptor =>
    obtain ⟨n, hn, hc⟩ := exists_of_bind_ok hc
    obtain ⟨d, hd, hc⟩ := exists_of_bind_ok hc
    show (pool'.text name >>= _) = _
    rw [h.text hn]
    show (pool'.text descriptor >>= _) = _
    rw [h.text hd]
    exact hc
  all_goals cases hc

theorem Within.memberOf (h : pool.Within pool') {owner signature : UInt16} {onInterface : Bool}
    {m : Member} (hm : pool.memberOf owner signature onInterface = .ok m) :
    pool'.memberOf owner signature onInterface = .ok m := by
  unfold ConstantPool.memberOf at hm ⊢
  obtain ⟨n, hn, hm⟩ := exists_of_bind_ok hm
  obtain ⟨p, hp, hm⟩ := exists_of_bind_ok hm
  rw [h.className hn]
  show (pool'.nameAndType signature >>= _) = _
  rw [h.nameAndType hp]
  exact hm

theorem Within.member (h : pool.Within pool') {index : UInt16} {m : Member}
    (hm : pool.member index = .ok m) : pool'.member index = .ok m := by
  refine h.bind hm fun c hc => ?_
  cases c
  case field => exact h.memberOf hc
  case method => exact h.memberOf hc
  case interfaceMethod => exact h.memberOf hc
  all_goals cases hc

/-! ## 2. Slots at the end -/

/-- A pool as every file and every builder has it. -/
structure Healthy (pool : ConstantPool) : Prop where
  first : pool.slots[0]? = some .unusable
  bounded : pool.count ≤ capacity

/-- The pool with slots behind its last one. -/
def grown (pool : ConstantPool) (new : List Constant) : ConstantPool :=
  ⟨pool.slots ++ new.toArray⟩

@[simp] theorem grown_nil (pool : ConstantPool) : pool.grown [] = pool := by
  unfold grown
  rw [Array.append_empty]

theorem grown_grown (pool : ConstantPool) (new more : List Constant) :
    (pool.grown new).grown more = pool.grown (new ++ more) := by
  unfold grown
  simp only [Array.append_assoc, List.append_toArray]

@[simp] theorem count_grown (pool : ConstantPool) (new : List Constant) :
    (pool.grown new).count = pool.count + new.length := by
  simp only [grown, count, Array.size_append, List.size_toArray]

theorem within_grown (pool : ConstantPool) (new : List Constant) :
    pool.Within (pool.grown new) := by
  intro i c hi
  obtain ⟨hlt, rfl⟩ := Array.getElem?_eq_some_iff.1 hi
  unfold grown
  rw [Array.getElem?_append_left hlt, Array.getElem?_eq_getElem hlt]

theorem healthy_empty : ConstantPool.Healthy {} := ⟨rfl, by decide⟩

theorem Healthy.grown {new : List Constant} (h : pool.Healthy)
    (hroom : pool.count + new.length ≤ capacity) : (pool.grown new).Healthy :=
  ⟨within_grown pool new _ _ h.first, by rwa [count_grown]⟩

variable {c d : Constant}

/-- **An entry is added as the slots that it fills.** -/
theorem add_eq_grown (pool : ConstantPool) (c : Constant) : pool.add c = pool.grown c.row := by
  unfold add grown Constant.row
  split
  · rw [← List.push_append_toArray, ← List.push_append_toArray, Array.append_empty]
  · rw [← List.push_append_toArray, Array.append_empty]

theorem slots_add (hc : c.isWide = false) : (pool.add c).slots = pool.slots.push c := by
  unfold add
  rw [hc]
  rfl

theorem count_add : (pool.add c).count = pool.count + c.slots := by
  rw [add_eq_grown, count_grown, Constant.length_row]

theorem within_add : pool.Within (pool.add c) := by
  rw [add_eq_grown]
  exact within_grown pool c.row

/-- What stands in a pool after an entry was added, and can be used. -/
theorem getElem?_add {i : Nat} (hi : (pool.add c).slots[i]? = some d) (hu : d ≠ .unusable) :
    pool.slots[i]? = some d ∨ d = c ∧ i = pool.count := by
  rw [add_eq_grown, grown, Array.getElem?_append] at hi
  split at hi
  · exact .inl hi
  · rename_i hlt
    rw [List.getElem?_toArray] at hi
    right
    cases hwide : c.isWide with
    | false =>
        rw [Constant.row_of_narrow hwide, List.getElem?_singleton] at hi
        split at hi
        · rename_i hzero
          cases hi
          exact ⟨rfl, by unfold count; omega⟩
        · cases hi
    | true =>
        rw [Constant.row_of_wide hwide] at hi
        cases hk : i - pool.slots.size with
        | zero =>
            rw [hk] at hi
            cases hi
            exact ⟨rfl, by unfold count; omega⟩
        | succ k =>
            -- behind the entry stands the slot that cannot be used
            rw [hk, List.getElem?_cons_succ, List.getElem?_singleton] at hi
            split at hi
            · cases hi
              exact absurd rfl hu
            · cases hi

theorem grown_add (pool : ConstantPool) (new : List Constant) {c : Constant}
    (hc : c.isWide = false) : (pool.grown new).add c = pool.grown (new ++ [c]) := by
  rw [add_eq_grown, grown_grown, Constant.row_of_narrow hc]

/-! ## 3. Adding one entry -/

/-- The number of a slot of a healthy pool fits two bytes. -/
theorem Healthy.toNat_toUInt16 (h : pool.Healthy) {i : Nat} (hi : i < pool.count) :
    i.toUInt16.toNat = i := by
  have hb := h.bounded
  unfold capacity at hb
  show i % 65536 = i
  omega

/-- **An entry is found under its first number**, which cannot be zero. -/
theorem Healthy.find?_eq_some (h : pool.Healthy) (hc : c ≠ .unusable) {i : UInt16}
    (hi : pool.find? c = some i) : pool.get i = .ok c := by
  unfold find? at hi
  split at hi
  · cases hi
  · cases hi
  · rename_i k _ hk
    cases hi
    obtain ⟨hlt, hkc, _⟩ := Array.findIdx?_eq_some_iff_getElem.1 hk
    rw [get_eq_ok_iff, h.toNat_toUInt16 hlt, Array.getElem?_eq_getElem hlt]
    exact ⟨congrArg some (by simpa using hkc), hc⟩

theorem Healthy.find?_eq_none_iff (h : pool.Healthy) (hc : c ≠ .unusable) :
    pool.find? c = none ↔ c ∉ pool.slots := by
  unfold find?
  constructor
  · intro hn
    split at hn
    · rename_i hk
      rw [Array.findIdx?_eq_none_iff] at hk
      exact fun hm => absurd (hk c hm) (by simp)
    · rename_i hk
      obtain ⟨hlt, hkc, _⟩ := Array.findIdx?_eq_some_iff_getElem.1 hk
      have h0 := h.first
      rw [Array.getElem?_eq_getElem hlt] at h0
      have : c = .unusable := by
        rw [← Option.some.inj h0]
        simpa using (beq_iff_eq.1 hkc).symm
      exact absurd this hc
    · cases hn
  · intro hm
    have : pool.slots.findIdx? (· == c) = none := by
      rw [Array.findIdx?_eq_none_iff]
      intro x hx
      simp only [beq_eq_false_iff_ne]
      rintro rfl
      exact hm hx
    rw [this]

theorem Healthy.add (h : pool.Healthy) (hroom : pool.count + c.slots ≤ capacity) :
    (pool.add c).Healthy := by
  rw [add_eq_grown]
  exact h.grown (by rwa [Constant.length_row])

/-- **An entry that is there is not added again.** -/
theorem intern_of_mem (h : pool.Healthy) (hu : c ≠ .unusable) (hm : c ∈ pool.slots) :
    ∃ i, pool.intern c = .ok (i, pool) ∧ pool.find? c = some i ∧ pool.get i = .ok c := by
  cases hf : pool.find? c with
  | none => exact absurd hm ((h.find?_eq_none_iff hu).1 hf)
  | some i =>
      refine ⟨i, ?_, rfl, h.find?_eq_some hu hf⟩
      unfold intern
      rw [hf]

theorem overflow?_eq_none_iff : pool.overflow? c = none ↔ pool.count + c.slots ≤ capacity := by
  unfold overflow?
  simp only [ite_eq_right_iff, reduceCtorEq, imp_false, Nat.not_lt]

/-- **An entry that is not there is added at the end**, if there is room. -/
theorem intern_of_not_mem (h : pool.Healthy) (hu : c ≠ .unusable) (hm : c ∉ pool.slots)
    (hroom : pool.count + c.slots ≤ capacity) :
    pool.intern c = .ok (pool.count.toUInt16, pool.add c) := by
  unfold intern
  rw [(h.find?_eq_none_iff hu).2 hm]
  unfold push
  rw [overflow?_eq_none_iff.2 hroom]

/-- **A full pool takes no entry that is not there.** -/
theorem intern_full (h : pool.Healthy) (hu : c ≠ .unusable) (hm : c ∉ pool.slots)
    (hfull : ¬ pool.count + c.slots ≤ capacity) :
    pool.intern c = .error (.poolOverflow (pool.count + c.slots)) := by
  unfold intern
  rw [(h.find?_eq_none_iff hu).2 hm]
  unfold push overflow?
  rw [if_pos (Nat.not_le.1 hfull)]

/-- Adding an entry does not change where another one is found. -/
theorem find?_add {i : UInt16} (hi : pool.find? d = some i) : (pool.add c).find? d = some i := by
  rw [add_eq_grown]
  unfold find? at hi ⊢
  rw [grown, Array.findIdx?_append]
  cases hk : pool.slots.findIdx? (· == d) with
  | none => rw [hk] at hi; cases hi
  | some k => rw [hk] at hi; simpa using hi

/-- A pool that has the entries of another one, and finds each where the other one finds it. -/
structure Extends (pool pool' : ConstantPool) : Prop where
  within : pool.Within pool'
  find : ∀ c i, pool.find? c = some i → pool'.find? c = some i

theorem Extends.refl (pool : ConstantPool) : pool.Extends pool := ⟨Within.refl pool, fun _ _ h => h⟩

theorem Extends.trans {pool'' : ConstantPool} (h : pool.Extends pool') (h' : pool'.Extends pool'') :
    pool.Extends pool'' :=
  ⟨fun i c hc => h'.within i c (h.within i c hc), fun c i hi => h'.find c i (h.find c i hi)⟩

theorem extends_add : pool.Extends (pool.add c) := ⟨within_add, fun _ _ hi => find?_add hi⟩

/-- An entry that was not there is found at the end, once it is added. -/
theorem Healthy.find?_add_self (h : pool.Healthy) (hm : c ∉ pool.slots) :
    (pool.add c).find? c = some pool.count.toUInt16 := by
  have hnone : pool.slots.findIdx? (· == c) = none := by
    rw [Array.findIdx?_eq_none_iff]
    intro x hx
    simp only [beq_eq_false_iff_ne]
    rintro rfl
    exact hm hx
  obtain ⟨hpos, -⟩ := Array.getElem?_eq_some_iff.1 h.first
  obtain ⟨rest, hrow⟩ := c.exists_row
  have hfirst : c.row.toArray.findIdx? (· == c) = some 0 := by
    rw [hrow, List.findIdx?_toArray, List.findIdx?_cons, if_pos (beq_self_eq_true c)]
  rw [add_eq_grown]
  unfold find?
  rw [ConstantPool.grown, Array.findIdx?_append, hnone, hfirst]
  simp only [Option.none_or, Option.map_some, Nat.zero_add]
  split
  · rename_i heq
    cases heq
  · rename_i heq
    exact absurd (Option.some.inj heq) (Nat.ne_of_gt hpos)
  · rename_i heq
    cases heq
    rfl

/-- **An entry that was found or added is found afterwards**, and the pool is as it was or has the
    entry at its end. -/
theorem Healthy.intern_ok (h : pool.Healthy) (hu : c ≠ .unusable) {i : UInt16}
    (hi : pool.intern c = .ok (i, pool')) : pool'.find? c = some i ∧
      (pool' = pool ∧ c ∈ pool.slots ∨
        pool' = pool.add c ∧ c ∉ pool.slots ∧ pool.count + c.slots ≤ capacity) := by
  by_cases hm : c ∈ pool.slots
  · obtain ⟨j, hj, hfind, -⟩ := intern_of_mem h hu hm
    rw [hj] at hi
    cases hi
    exact ⟨hfind, .inl ⟨rfl, hm⟩⟩
  · by_cases hroom : pool.count + c.slots ≤ capacity
    · rw [intern_of_not_mem h hu hm hroom] at hi
      cases hi
      exact ⟨h.find?_add_self hm, .inr ⟨rfl, hm, hroom⟩⟩
    · rw [intern_full h hu hm hroom] at hi
      cases hi

/-! ## 4. Entries that are missing -/

/-- Those of some entries that a pool does not have, each once. -/
def missing (pool : ConstantPool) (cs : List Constant) : Finset Constant :=
  cs.toFinset.filter (· ∉ pool.slots)

theorem mem_missing {cs : List Constant} : c ∈ pool.missing cs ↔ c ∈ cs ∧ c ∉ pool.slots := by
  rw [missing, Finset.mem_filter, List.mem_toFinset]

theorem missing_cons_of_mem (cs : List Constant) (hm : c ∈ pool.slots) :
    pool.missing (c :: cs) = pool.missing cs := by
  ext e
  rw [mem_missing, mem_missing, List.mem_cons]
  constructor
  · rintro ⟨rfl | he, hne⟩
    · exact absurd hm hne
    · exact ⟨he, hne⟩
  · exact fun ⟨he, hne⟩ => ⟨.inr he, hne⟩

/-- **An entry that is missing is missing no more once it is added**, and those that are missing
    then are one less. -/
theorem card_missing_cons (hc : c.isWide = false) (cs : List Constant) (hm : c ∉ pool.slots) :
    (pool.missing (c :: cs)).card = ((pool.add c).missing cs).card + 1 := by
  have hadd : ∀ e, e ∈ (pool.add c).slots ↔ e ∈ pool.slots ∨ e = c := by
    intro e
    rw [slots_add hc, Array.mem_push]
  have hinsert : pool.missing (c :: cs) = insert c ((pool.add c).missing cs) := by
    ext e
    rw [Finset.mem_insert, mem_missing, mem_missing, List.mem_cons, hadd]
    by_cases he : e = c
    · subst he
      exact iff_of_true ⟨.inl rfl, hm⟩ (.inl rfl)
    · simp only [he, false_or, or_false]
  have hnew : c ∉ (pool.add c).missing cs := by
    rw [mem_missing, hadd]
    exact fun h => h.2 (.inr rfl)
  rw [hinsert, Finset.card_insert_of_notMem hnew]

end ConstantPool

end ClassAccess
