import ClassAccess.ClassFile.Assembly
import ClassAccess.Proofs.ClassFile.Lookup
import ClassAccess.Proofs.ConstantPool.Codec

/-!
# Steps that add constants

What a step adds to a pool stays there, whether or not the step succeeds, and the number it gives
leads to what was asked for.

* `ConstantPool.Grown` -- a pool that came from another one by adding entries of some kind;
* `keeps_constant`, `keeps_classNamed`, `keeps_methodReference`, ... -- a step **adds entries of its
  kind only**, whether or not it succeeds;
* `constant_ok`, `text_ok`, `classNamed_ok`, `methodReference_ok`, ... -- **the number that a step
  gives is looked up as what was asked for**.
-/

namespace ClassAccess

open Outcome

/-! ## 1. Growing -/

/-- Whether an entry takes one slot. -/
def Constant.isEntry : Constant → Bool
  | long _ | double _ | unusable => false
  | _ => true

/-- Whether a bootstrap argument with this entry is told by more than its number. -/
def Constant.isTold : Constant → Bool
  | methodHandle .. | methodType _ => true
  | _ => false

/-- Whether an entry takes one slot and is told by its number. -/
def Constant.isPlain (c : Constant) : Bool := c.isEntry && !c.isTold

theorem Constant.ne_unusable_of_isEntry {c : Constant} (h : c.isEntry = true) : c ≠ .unusable := by
  intro hc
  rw [hc] at h
  cases h

theorem Constant.isEntry_of_isPlain {c : Constant} (h : c.isPlain = true) : c.isEntry = true :=
  (Bool.and_eq_true_iff.1 h).1

theorem Constant.isTold_of_isPlain {c : Constant} (h : c.isPlain = true) : c.isTold = false :=
  Bool.not_eq_true' _ ▸ (Bool.and_eq_true_iff.1 h).2

namespace ConstantPool

/-- A pool that came from another one by adding entries with a property, as long as there was
    room. -/
inductive Grown (p : Constant → Bool) (pool : ConstantPool) : ConstantPool → Prop
  | refl : Grown p pool pool
  | add {pool' : ConstantPool} {c : Constant} : Grown p pool pool' → p c = true →
      c ≠ .unusable → pool'.count + c.slots ≤ capacity → Grown p pool (pool'.add c)

namespace Grown

variable {p p' : Constant → Bool} {pool pool' pool'' : ConstantPool}

theorem trans (h : Grown p pool pool') (h' : Grown p pool' pool'') : Grown p pool pool'' := by
  induction h' with
  | refl => exact h
  | add _ hp hu hroom ih => exact ih.add hp hu hroom

theorem mono (h : Grown p pool pool') (hp : ∀ c, p c = true → p' c = true) :
    Grown p' pool pool' := by
  induction h with
  | refl => exact .refl
  | add _ hc hu hroom ih => exact ih.add (hp _ hc) hu hroom

theorem extended (h : Grown p pool pool') : pool.Extends pool' := by
  induction h with
  | refl => exact Extends.refl pool
  | add _ _ _ _ ih => exact ih.trans extends_add

theorem within (h : Grown p pool pool') : pool.Within pool' := h.extended.within

theorem healthy (h : Grown p pool pool') (hp : pool.Healthy) : pool'.Healthy := by
  induction h with
  | refl => exact hp
  | add _ _ _ hroom ih => exact ih.add hroom

/-- **An entry of a grown pool was there or is one of those added.** -/
theorem get (h : Grown p pool pool') {i : UInt16} {c : Constant} (hc : pool'.get i = .ok c) :
    pool.get i = .ok c ∨ p c = true := by
  induction h with
  | refl => exact .inl hc
  | @add pool' d _ hd _ _ ih =>
      obtain ⟨hi, hu⟩ := get_eq_ok_iff.1 hc
      rcases getElem?_add hi hu with hi | ⟨rfl, -⟩
      · exact ih (get_eq_ok_iff.2 ⟨hi, hu⟩)
      · exact .inr hd

/-- **What a pool has got stands at its end.** -/
theorem exists_grown (h : Grown p pool pool') :
    ∃ new, (∀ c ∈ new, c ≠ .unusable ∧ p c = true) ∧ pool' = pool.grown (rows new) := by
  induction h with
  | refl => exact ⟨[], nofun, (grown_nil pool).symm⟩
  | @add pool' c _ hp hu _ ih =>
      obtain ⟨new, hnew, rfl⟩ := ih
      refine ⟨new ++ [c], fun d hd => ?_, ?_⟩
      · rcases List.mem_append.1 hd with hd | hd
        · exact hnew d hd
        · rw [List.mem_singleton.1 hd]
          exact ⟨hu, hp⟩
      · rw [add_eq_grown, grown_grown, rows_append, rows_singleton]

/-- A pool that grew from one that is laid out is laid out. -/
theorem laidOut (h : Grown p pool pool') (hl : pool.LaidOut) : pool'.LaidOut := by
  obtain ⟨new, hnew, rfl⟩ := h.exists_grown
  exact hl.grown fun c hc => (hnew c hc).1

end Grown

/-- The number zero leads nowhere. -/
theorem Healthy.get_zero {pool : ConstantPool} (h : pool.Healthy) {c : Constant} :
    pool.get 0 ≠ .ok c := by
  intro hc
  obtain ⟨hi, hu⟩ := get_eq_ok_iff.1 hc
  exact hu (Option.some.inj (hi.symm.trans h.first))

theorem Healthy.ne_zero_of_get {pool : ConstantPool} (h : pool.Healthy) {i : UInt16} {c : Constant}
    (hc : pool.get i = .ok c) : i ≠ 0 := by
  rintro rfl
  exact h.get_zero hc

end ConstantPool

/-! ## 2. One entry -/

namespace Interning

open ConstantPool

variable {pool pool' : ConstantPool} {c : Constant} {i : UInt16}

theorem fresh_ok (h : fresh c pool = .ok i pool') :
    i = pool.count.toUInt16 ∧ pool' = pool.add c ∧ pool.count + c.slots ≤ capacity := by
  unfold fresh at h
  split at h
  · cases h
  · rename_i hover
    cases h
    exact ⟨rfl, rfl, overflow?_eq_none_iff.1 hover⟩

theorem leaves_fresh (R : ConstantPool → ConstantPool → Prop) (hrefl : ∀ pool, R pool pool) :
    Leaves R (fresh c) := by
  intro s e t h
  unfold fresh at h
  split at h
  · cases h
    exact hrefl s
  · cases h

/-- **A step for a new entry adds this entry at most.** -/
theorem keeps_fresh {p : Constant → Bool} (hu : c ≠ .unusable) (hp : p c = true) :
    Keeps (Grown p) (fresh c) := by
  refine ⟨fun pool i pool' h => ?_, leaves_fresh _ fun _ => .refl⟩
  obtain ⟨-, rfl, hroom⟩ := fresh_ok h
  exact Grown.refl.add hp hu hroom

theorem constant_ok_iff : constant c pool = .ok i pool' ↔ pool.intern c = .ok (i, pool') := by
  rw [constant_eq]
  split
  · rename_i h
    rw [h]
    constructor
    · intro h
      cases h
      rfl
    · intro h
      cases h
      rfl
  · rename_i h
    rw [h]
    exact ⟨fun h => (by cases h), fun h => (by cases h)⟩

theorem leaves_constant (R : ConstantPool → ConstantPool → Prop) (hrefl : ∀ pool, R pool pool) :
    Leaves R (constant c) := by
  intro s e t h
  rw [constant_eq] at h
  split at h
  · cases h
  · cases h
    exact hrefl s

/-- **A step for one entry adds this entry at most.** -/
theorem keeps_constant {p : Constant → Bool} (hu : c ≠ .unusable) (hp : p c = true) :
    Keeps (Grown p) (constant c) := by
  refine ⟨fun pool i pool' h => ?_, leaves_constant _ fun _ => .refl⟩
  unfold constant at h
  split at h
  · cases h
    exact .refl
  · exact (keeps_fresh hu hp).1 _ _ _ h

/-- **An entry that is asked for is found under the number that is given.** -/
theorem constant_ok (hp : pool.Healthy) (hu : c ≠ .unusable)
    (h : constant c pool = .ok i pool') : pool'.get i = .ok c := by
  have hgrown : Grown (fun _ => true) pool pool' := (keeps_constant hu rfl).1 _ _ _ h
  have hfind := (hp.intern_ok hu (constant_ok_iff.1 h)).1
  exact (hgrown.healthy hp).find?_eq_some hu hfind

/-- The number that is given is the only one at which the pool has changed. -/
theorem get_of_constant (hp : pool.Healthy) (hu : c ≠ .unusable)
    (h : constant c pool = .ok i pool') {j : UInt16} {d : Constant} (hd : pool'.get j = .ok d) :
    pool.get j = .ok d ∨ j = i := by
  have hi := constant_ok_iff.1 h
  by_cases hm : c ∈ pool.slots
  · obtain ⟨k, hk, -, -⟩ := intern_of_mem hp hu hm
    rw [hk] at hi
    cases hi
    exact .inl hd
  · by_cases hroom : pool.count + c.slots ≤ capacity
    · rw [intern_of_not_mem hp hu hm hroom] at hi
      cases hi
      obtain ⟨hj, hdu⟩ := get_eq_ok_iff.1 hd
      rcases getElem?_add hj hdu with hj | ⟨-, hj⟩
      · exact .inl (get_eq_ok_iff.2 ⟨hj, hdu⟩)
      · refine .inr (UInt16.toNat_inj.1 ?_)
        have hb := hp.bounded
        unfold capacity at hb
        rw [hj]
        show pool.count = pool.count % 65536
        omega
    · rw [intern_full hp hu hm hroom] at hi
      cases hi

/-! ## 3. Entries made of entries -/

/-- Steps after each other add what each of them adds. -/
theorem keeps_grown_bind {p : Constant → Bool} {α β : Type} {x : Interning α}
    {f : α → Interning β} (hx : Keeps (Grown p) x) (hf : ∀ a, Keeps (Grown p) (f a)) :
    Keeps (Grown p) (x >>= f) :=
  hx.bind (fun _ _ _ h h' => h.trans h') hf

theorem keeps_text (value : String) : Keeps (Grown Constant.isPlain) (text value) :=
  keeps_constant nofun rfl

theorem keeps_classNamed (name : String) : Keeps (Grown Constant.isPlain) (classNamed name) :=
  keeps_grown_bind (keeps_text name) fun _ => keeps_constant nofun rfl

theorem keeps_nameAndType (name descriptor : String) :
    Keeps (Grown Constant.isPlain) (nameAndType name descriptor) :=
  keeps_grown_bind (keeps_text name) fun _ =>
    keeps_grown_bind (keeps_text descriptor) fun _ => keeps_constant nofun rfl

theorem text_ok {value : String} (hp : pool.Healthy) (h : text value pool = .ok i pool') :
    pool'.text i = .ok value := by
  rw [ConstantPool.text, constant_ok hp (by nofun) h]
  rfl

theorem classNamed_ok {name : String} (hp : pool.Healthy)
    (h : classNamed name pool = .ok i pool') : pool'.className i = .ok name := by
  obtain ⟨n, pool₁, hname, h⟩ := bind_ok_iff.1 h
  have hp₁ := ((keeps_text name).1 _ _ _ hname).healthy hp
  have hgrown : Grown Constant.isPlain pool₁ pool' := (keeps_constant (by nofun) rfl).1 _ _ _ h
  rw [ConstantPool.className, constant_ok hp₁ (by nofun) h]
  exact hgrown.within.text (text_ok hp hname)

theorem nameAndType_ok {name descriptor : String} (hp : pool.Healthy)
    (h : nameAndType name descriptor pool = .ok i pool') :
    pool'.nameAndType i = .ok (name, descriptor) := by
  obtain ⟨n, pool₁, hname, h⟩ := bind_ok_iff.1 h
  obtain ⟨d, pool₂, hdescriptor, h⟩ := bind_ok_iff.1 h
  have hgrown₁ := (keeps_text name).1 _ _ _ hname
  have hgrown₂ := (keeps_text descriptor).1 _ _ _ hdescriptor
  have hgrown₃ : Grown Constant.isPlain pool₂ pool' := (keeps_constant (by nofun) rfl).1 _ _ _ h
  have hp₁ := hgrown₁.healthy hp
  have hn : pool'.text n = .ok name := (hgrown₂.trans hgrown₃).within.text (text_ok hp hname)
  have hd : pool'.text d = .ok descriptor := hgrown₃.within.text (text_ok hp₁ hdescriptor)
  rw [ConstantPool.nameAndType, constant_ok (hgrown₂.healthy hp₁) (by nofun) h]
  show (pool'.text n >>= _) = _
  rw [hn]
  show (pool'.text d >>= _) = _
  rw [hd]
  rfl

end Interning

/-! ## 4. What a builder asks for -/

namespace Assembly

open ConstantPool Interning

variable {pool pool' : ConstantPool} {i : UInt16}

theorem keeps_classNamed? (name : Option String) :
    Keeps (Grown Constant.isPlain) (classNamed? name) := by
  cases name with
  | none => exact keeps_pure (fun _ => .refl) 0
  | some name => exact keeps_classNamed name

theorem keeps_text? (value : Option String) : Keeps (Grown Constant.isPlain) (text? value) := by
  cases value with
  | none => exact keeps_pure (fun _ => .refl) 0
  | some value => exact keeps_text value

theorem keeps_fieldReference (owner name descriptor : String) :
    Keeps (Grown Constant.isPlain) (fieldReference owner name descriptor) :=
  keeps_grown_bind (keeps_classNamed owner) fun _ =>
    keeps_grown_bind (keeps_nameAndType name descriptor) fun _ => keeps_constant nofun rfl

theorem keeps_methodReference (target : Member) :
    Keeps (Grown Constant.isPlain) (methodReference target) := by
  refine keeps_grown_bind (keeps_classNamed target.owner) fun owner =>
    keeps_grown_bind (keeps_nameAndType target.name target.descriptor) fun signature => ?_
  cases target.onInterface <;> exact keeps_constant nofun rfl

theorem keeps_string (value : String) : Keeps (Grown Constant.isPlain) (string value) :=
  keeps_grown_bind (keeps_text value) fun _ => keeps_constant nofun rfl

theorem keeps_callSite (bootstrap : UInt16) (name descriptor : String) :
    Keeps (Grown Constant.isPlain) (callSite bootstrap name descriptor) :=
  keeps_grown_bind (keeps_nameAndType name descriptor) fun _ => keeps_constant nofun rfl

/-- The member that a handle refers to. -/
def handleReference (handle : Handle) : Interning UInt16 :=
  if handle.kind.isField then
    fieldReference handle.target.owner handle.target.name handle.target.descriptor
  else methodReference handle.target

theorem methodHandle_eq (handle : Handle) : methodHandle handle = (do
    let reference ← handleReference handle
    Interning.constant (.methodHandle handle.kind.code reference)) := by
  unfold methodHandle handleReference
  split <;> rfl

theorem keeps_handleReference (handle : Handle) :
    Keeps (Grown Constant.isPlain) (handleReference handle) := by
  unfold handleReference
  split
  · exact keeps_fieldReference _ _ _
  · exact keeps_methodReference _

theorem className?_ok {name : Option String} (hp : pool.Healthy)
    (h : classNamed? name pool = .ok i pool') : pool'.className? i = .ok name := by
  cases name with
  | none =>
      cases h
      rfl
  | some name =>
      have hname := classNamed_ok hp h
      obtain ⟨c, hc, -⟩ := exists_of_bind_ok hname
      have hne := (((keeps_classNamed name).1 _ _ _ h).healthy hp).ne_zero_of_get hc
      rw [ConstantPool.className?, if_neg hne, hname]
      rfl

theorem text?_ok {value : Option String} (hp : pool.Healthy)
    (h : text? value pool = .ok i pool') : pool'.text? i = .ok value := by
  cases value with
  | none =>
      cases h
      rfl
  | some value =>
      have hvalue := text_ok hp h
      obtain ⟨c, hc, -⟩ := exists_of_bind_ok hvalue
      have hne := (((keeps_text value).1 _ _ _ h).healthy hp).ne_zero_of_get hc
      rw [ConstantPool.text?, if_neg hne, hvalue]
      rfl

/-- A reference that is made of an owner and a name with descriptor is looked up as the member. -/
theorem memberOf_ok {owner name descriptor : String} {onInterface : Bool}
    (make : UInt16 → UInt16 → Constant) (hmake : ∀ o s, (make o s).isPlain = true)
    (hp : pool.Healthy) (h : (do
      let o ← Interning.classNamed owner
      let s ← Interning.nameAndType name descriptor
      Interning.constant (make o s)) pool = .ok i pool') :
    ∃ o s, pool'.get i = .ok (make o s) ∧
      pool'.memberOf o s onInterface = .ok ⟨owner, name, descriptor, onInterface⟩ := by
  obtain ⟨o, pool₁, howner, h⟩ := bind_ok_iff.1 h
  obtain ⟨s, pool₂, hsignature, h⟩ := bind_ok_iff.1 h
  have hgrown₁ := (keeps_classNamed owner).1 _ _ _ howner
  have hgrown₂ := (keeps_nameAndType name descriptor).1 _ _ _ hsignature
  have hu := Constant.ne_unusable_of_isEntry (Constant.isEntry_of_isPlain (hmake o s))
  have hgrown₃ : Grown Constant.isPlain pool₂ pool' :=
    (keeps_constant hu (hmake o s)).1 _ _ _ h
  have hp₁ := hgrown₁.healthy hp
  have ho : pool'.className o = .ok owner :=
    (hgrown₂.trans hgrown₃).within.className (classNamed_ok hp howner)
  have hs : pool'.nameAndType s = .ok (name, descriptor) :=
    hgrown₃.within.nameAndType (nameAndType_ok hp₁ hsignature)
  refine ⟨o, s, constant_ok (hgrown₂.healthy hp₁) hu h, ?_⟩
  rw [ConstantPool.memberOf, ho]
  show (pool'.nameAndType s >>= _) = _
  rw [hs]
  rfl

theorem fieldReference_ok {owner name descriptor : String} (hp : pool.Healthy)
    (h : fieldReference owner name descriptor pool = .ok i pool') :
    pool'.member i = .ok ⟨owner, name, descriptor, false⟩ := by
  obtain ⟨o, s, hget, hmember⟩ := memberOf_ok .field (fun _ _ => rfl) hp h
  rw [ConstantPool.member, hget]
  exact hmember

/-- **A reference to a method is looked up as the method**, and is no reference to a field. -/
theorem methodReference_ok {target : Member} (hp : pool.Healthy)
    (h : methodReference target pool = .ok i pool') :
    ∃ c, pool'.get i = .ok c ∧ Layout.isFieldReference c = false ∧
      pool'.member i = .ok target := by
  obtain ⟨owner, name, descriptor, onInterface⟩ := target
  cases onInterface with
  | false =>
      obtain ⟨o, s, hget, hmember⟩ := memberOf_ok .method (fun _ _ => rfl) hp h
      refine ⟨_, hget, rfl, ?_⟩
      rw [ConstantPool.member, hget]
      exact hmember
  | true =>
      obtain ⟨o, s, hget, hmember⟩ := memberOf_ok .interfaceMethod (fun _ _ => rfl) hp h
      refine ⟨_, hget, rfl, ?_⟩
      rw [ConstantPool.member, hget]
      exact hmember

end Assembly

end ClassAccess
