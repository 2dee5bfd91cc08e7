import ClassAccess.ClassFile.Layout
import ClassAccess.Proofs.ClassFile.Calls
import ClassAccess.Proofs.ConstantPool.Growth
import ClassAccess.Proofs.Reading.Following

/-!
# The parts of an edited class file

Every part of a class file is read from the edited file as it was, but for its slots: the access
flags of declarations, the opcodes of calls, the constant numbers of bootstrap methods.

* `Attribute.Followed` -- what is looked for in the body of an attribute, before and after;
* `follows_attribute`, `followed_contents` -- the body of an attribute is read again like any other
  stretch of the file, and what is read **does not reach beyond its end**;
* `follows_header`, `follows_field`, `follows_method`, `followed_attributeTables` -- each kind of
  part; `Parts.follows` -- **the parts of an edited class file are the edited parts**.
-/

namespace ClassAccess

open Outcome

/-! ## 1. Attributes -/

section Attributes

variable {α α' β β' : Type} {E : Edit} {k : Nat} {pool pool' : ConstantPool}

namespace Attribute

/-- What `f` finds in the body of an attribute, `f'` finds, edited, in the edited body. -/
def Followed (E : Edit) (k : Nat) (f : Attribute → Except Fault β)
    (f' : Attribute → Except Fault β') (slots : β → List Slot) (g : β → β') : Prop :=
  ∀ (a : Attribute) (b : β) (block rest : Bytes), a.body.rest = block ++ rest →
    a.length = block.length → f a = .ok b →
      Slot.Ascend a.body.offset a.finish (slots b) ∧
        (E.Respects (slots b) a.body.offset a.finish → ∀ u,
          f' ⟨a.name, ⟨a.body.offset + k, E.apply a.body.offset block ++ u⟩, a.length⟩ =
            .ok (g b))

/-- **What is read from the body of an attribute is read from the edited body.** -/
theorem followed_contents {r : Reading β} {r' : Reading β'} {slots : β → List Slot} {g : β → β'}
    (hr : Reading.Follows E k r r' slots g) :
    Followed E k (·.contents r) (·.contents r') slots g := by
  intro a b block rest hbody hlen h
  unfold contents at h
  simp only at h
  split at h
  · cases h
  · rename_i value t ht
    split at h
    · cases h
    · rename_i hfin
      cases h
      obtain ⟨x, hx, ho, hasc, hread⟩ := hr _ _ _ ht
      have hle : x.length ≤ block.length := by
        unfold finish at hfin
        omega
      -- what was read is the front of the body
      obtain ⟨y, hy⟩ : ∃ y, block = x ++ y := by
        rw [hbody] at hx
        exact ⟨block.drop x.length, by
          rw [← List.take_append_drop x.length block, List.append_assoc] at hx
          have := List.append_inj_left hx (by rw [List.length_take]; omega)
          rw [← List.take_append_drop x.length block, this]
          simp⟩
      refine ⟨hasc.mono (Nat.le_refl _) (by omega), fun hE u => ?_⟩
      have hE' := hE.narrow (Nat.le_refl _) (show t.offset ≤ a.finish by omega)
      unfold contents
      simp only
      rw [hy, Edit.apply_append, List.append_assoc, hread hE']
      simp only
      rw [if_neg]
      unfold finish at hfin ⊢
      simp only
      omega

/-- A check behind what is read from the body takes no bytes. -/
theorem contents_check {r : Reading α} {f : α → Except Fault β} {a : Attribute} {b : β} :
    a.contents (do let p ← r; Reading.check (f p)) = .ok b ↔
      ∃ p, a.contents r = .ok p ∧ f p = .ok b := by
  unfold contents
  rw [Reading.run_bind]
  cases hr : r a.body with
  | error fault => simp
  | ok q =>
      obtain ⟨p, t⟩ := q
      simp only [Reading.check]
      cases hf : f p with
      | error fault =>
          by_cases hfin : a.finish < t.offset <;> simp [hfin, hf]
      | ok c =>
          by_cases hfin : a.finish < t.offset <;> simp [hfin, hf]

/-- An attribute without anything to look for. -/
theorem followed_of_eq {f : Attribute → Except Fault β} {f' : Attribute → Except Fault β'}
    {slots : β → List Slot} {g : β → β'} {b : β} {b' : β'} (hf : ∀ a, f a = .ok b)
    (hf' : ∀ a, f' a = .ok b') (hslots : slots b = []) (hg : g b = b') :
    Followed E k f f' slots g := by
  intro a c block rest _ _ h
  rw [hf] at h
  cases h
  rw [hslots, hg]
  exact ⟨Nat.le_add_right _ _, fun _ _ => hf' _⟩

/-- What is looked for depends on the name of the attribute. -/
theorem Followed.ite {f₁ f₂ : Attribute → Except Fault β} {f₁' f₂' : Attribute → Except Fault β'}
    {slots : β → List Slot} {g : β → β'} (name : String)
    (h₁ : Followed E k f₁ f₁' slots g) (h₂ : Followed E k f₂ f₂' slots g) :
    Followed E k (fun a => if a.name = name then f₁ a else f₂ a)
      (fun a => if a.name = name then f₁' a else f₂' a) slots g := by
  intro a b block rest hbody hlen h
  by_cases hn : a.name = name
  · simp only [hn, if_true] at h ⊢
    have := h₁ a b block rest hbody hlen h
    rwa [hn] at this
  · simp only [hn, if_false] at h ⊢
    exact h₂ a b block rest hbody hlen h

/-- What is found is looked at from another side. -/
theorem Followed.map {f : Attribute → Except Fault α} {f' : Attribute → Except Fault α'}
    {slots₁ : α → List Slot} {g₁ : α → α'} {m : α → β} {m' : α' → β'} {slots : β → List Slot}
    {g : β → β'} (h : Followed E k f f' slots₁ g₁) (hslots : ∀ a, slots (m a) = slots₁ a)
    (hg : ∀ a, g (m a) = m' (g₁ a)) :
    Followed E k (fun a => m <$> f a) (fun a => m' <$> f' a) slots g := by
  intro a b block rest hbody hlen hb
  obtain ⟨c, hc, rfl⟩ := exists_of_map_ok hb
  obtain ⟨hasc, hfound⟩ := h a c block rest hbody hlen hc
  rw [hslots, hg]
  refine ⟨hasc, fun hE u => ?_⟩
  simp only
  rw [hfound hE u]
  rfl

/-- What stands in front of the body: the name of the attribute and the length of the body. -/
def front (pool : ConstantPool) : Reading (String × UInt32) := do
  let name ← Reading.check (pool.text (← Reading.word16))
  let length ← Reading.word32
  return (name, length)

theorem copied_front (hp : pool.Within pool') :
    Reading.Copied E k (front pool) (front pool') :=
  Reading.copied_word16.bind fun _ => (Reading.copied_check fun _ hv => hp.text hv).bind fun _ =>
    Reading.copied_word32.bind fun _ => Reading.copied_pure _

theorem reading_eq (pool : ConstantPool) :
    Attribute.reading pool = (do
      let p ← front pool
      let body ← Reading.source
      let _ ← Reading.bytes p.2.toNat
      return ⟨p.1, body, p.2.toNat⟩) := by
  simp only [Attribute.reading, front, bind_assoc, pure_bind]

theorem reading_ok {s t : Source} {a : Attribute} (h : Attribute.reading pool s = .ok (a, t)) :
    ∃ name length s' block, front pool s = .ok ((name, length), s') ∧
      Reading.bytes length.toNat s' = .ok (block, t) ∧ a = ⟨name, s', length.toNat⟩ := by
  rw [reading_eq] at h
  obtain ⟨⟨name, length⟩, s', hfront, h⟩ := Reading.exists_of_bind_ok h
  obtain ⟨body, s₁, hbody, h⟩ := Reading.exists_of_bind_ok h
  cases hbody
  obtain ⟨block, s₂, hblock, h⟩ := Reading.exists_of_bind_ok h
  cases h
  exact ⟨name, length, s', block, hfront, hblock, rfl⟩

theorem reading_of_front {s s' t : Source} {name : String} {length : UInt32} {block : Bytes}
    (hfront : front pool s = .ok ((name, length), s'))
    (hblock : Reading.bytes length.toNat s' = .ok (block, t)) :
    Attribute.reading pool s = .ok (⟨name, s', length.toNat⟩, t) := by
  have hsource : Reading.source s' = .ok (s', s') := rfl
  rw [reading_eq, Reading.bind_ok hfront, Reading.bind_ok hsource, Reading.bind_ok hblock]
  rfl

/-- **An attribute is read from the edited file, and its body looked at.** -/
theorem follows_attribute {f : Attribute → Except Fault β} {f' : Attribute → Except Fault β'}
    {slots : β → List Slot} {g : β → β'} (hp : pool.Within pool')
    (hf : Followed E k f f' slots g) :
    Reading.Follows E k (do let a ← Attribute.reading pool; Reading.check (f a))
      (do let a ← Attribute.reading pool'; Reading.check (f' a)) slots g := by
  intro s b t h
  obtain ⟨a, s', ha, h⟩ := Reading.exists_of_bind_ok h
  obtain ⟨hb, rfl⟩ := Reading.check_ok h
  obtain ⟨name, length, s₁, block, hfront, hblock, rfl⟩ := reading_ok ha
  obtain ⟨hrest, hoff, hlen⟩ := Reading.bytes_ok hblock
  obtain ⟨hasc, hfound⟩ := hf ⟨name, s₁, length.toNat⟩ b block s'.rest hrest hlen.symm hb
  obtain ⟨x, hx, hxo, _, hread⟩ := copied_front (k := k) hp s _ s₁ hfront
  have hfin : s'.offset = s.offset + (x ++ block).length := by
    rw [hoff, hxo, List.length_append, hlen, Nat.add_assoc]
  have hasc' : Slot.Ascend s₁.offset s'.offset (slots b) := by rw [hoff]; exact hasc
  have hle : s.offset ≤ s₁.offset := by rw [hxo]; exact Nat.le_add_right _ _
  refine ⟨x ++ block, by rw [hx, hrest, List.append_assoc], hfin,
    hasc'.mono hle (Nat.le_refl _), fun hE u => ?_⟩
  have hE₁ : E.Respects [] s.offset s₁.offset :=
    Edit.Respects.left (x := []) hE hasc'
  have hE₂ := hE.narrow hle (Nat.le_refl _)
  have hbytes := Reading.bytes_append (n := length.toNat) (o := s₁.offset + k)
    (x := E.apply s₁.offset block) (by rw [Edit.length_apply, hlen]) u
  rw [hoff] at hE₂
  rw [Edit.apply_append, List.append_assoc, ← hxo,
    Reading.bind_ok (reading_of_front (hread hE₁ _) hbytes), hoff, Nat.add_right_comm]
  show Reading.check (f' _) _ = _
  rw [hfound hE₂ u]
  rfl

/-- It only matters what is found, not which fault there is when nothing is found. -/
theorem Followed.of_ok {f f₁ : Attribute → Except Fault β} {f' f₁' : Attribute → Except Fault β'}
    {slots : β → List Slot} {g : β → β'} (h : Followed E k f₁ f₁' slots g)
    (hf : ∀ a b, f a = .ok b → f₁ a = .ok b) (hf' : ∀ a b, f₁' a = .ok b → f' a = .ok b) :
    Followed E k f f' slots g := by
  intro a b block rest hbody hlen hb
  obtain ⟨hasc, hfound⟩ := h a b block rest hbody hlen (hf a b hb)
  exact ⟨hasc, fun hE u => hf' _ _ (hfound hE u)⟩

end Attribute

end Attributes

/-! ## 2. Edited parts -/

/-- What has access flags and can be given others. -/
class Declaration (α : Type) where
  access : α → AccessFlags
  withAccess : α → AccessFlags → α
  withAccess_access : ∀ d, withAccess d (access d) = d
  withAccess_withAccess : ∀ d a b, withAccess (withAccess d a) b = withAccess d b

instance : Declaration Header :=
  ⟨Header.access, fun d access => { d with access }, fun _ => rfl, fun _ _ _ => rfl⟩

instance : Declaration InnerClass :=
  ⟨InnerClass.access, fun d access => { d with access }, fun _ => rfl, fun _ _ _ => rfl⟩

instance : Declaration FieldDeclaration :=
  ⟨FieldDeclaration.access, fun d access => { d with access }, fun _ => rfl, fun _ _ _ => rfl⟩

instance : Declaration MethodDeclaration :=
  ⟨MethodDeclaration.access, fun d access => { d with access }, fun _ => rfl, fun _ _ _ => rfl⟩

open Declaration

/-- What a declaration says once the edit is made in its access flags. -/
def Placed.told {α : Type} [Declaration α] (E : Edit) (p : Placed α) : α :=
  withAccess p.value (E.word p.offset (access p.value))

/-- A declaration with the edit made in its access flags. -/
def Placed.edited {α : Type} [Declaration α] (E : Edit) (k : Nat) (p : Placed α) : Placed α :=
  ⟨p.told E, p.offset + k⟩

/-- The number of a constant with the edit made in it. -/
def Placed.editedIndex (E : Edit) (k : Nat) (p : Placed UInt16) : Placed UInt16 :=
  ⟨E.word p.offset p.value, p.offset + k⟩

/-- The slot of a placed word. -/
def Placed.slot {α : Type} (p : Placed α) : Slot := .word p.offset

namespace BootstrapEntry

/-- A row of the table of bootstrap methods with the edit made in it. -/
def edited (E : Edit) (k : Nat) (e : BootstrapEntry) : BootstrapEntry :=
  ⟨e.handle.editedIndex E k, e.arguments.map (Placed.editedIndex E k)⟩

/-- The numbers in a row: that of the bootstrap method, then those of its arguments. -/
def places (e : BootstrapEntry) : List (Placed UInt16) := e.handle :: e.arguments

/-- The slots of a row. -/
def slots (e : BootstrapEntry) : List Slot := e.places.map Placed.slot

end BootstrapEntry

/-- The parts of a class file behind its constant pool, in order. The calls are not looked up, and
    inner classes and bootstrap methods stand attribute by attribute. -/
structure Parts where
  header : Placed Header
  fields : List (Placed FieldDeclaration)
  methods : List (Placed MethodDeclaration × List Code.CallBytes)
  tables : List (List (Placed InnerClass) × List BootstrapEntry)

namespace Parts

/-- The slots of a method. -/
def methodSlots (m : Placed MethodDeclaration × List Code.CallBytes) : List Slot :=
  m.1.slot :: m.2.flatMap Code.CallBytes.slots

/-- The slots of the tables in an attribute. -/
def tableSlots (t : List (Placed InnerClass) × List BootstrapEntry) : List Slot :=
  t.1.map Placed.slot ++ t.2.flatMap BootstrapEntry.slots

/-- All slots, in order. -/
def slots (p : Parts) : List Slot :=
  p.header.slot :: (p.fields.map Placed.slot ++ p.methods.flatMap methodSlots
    ++ p.tables.flatMap tableSlots)

/-- A method with the edit made in it. -/
def editedMethod (E : Edit) (k : Nat) (m : Placed MethodDeclaration × List Code.CallBytes) :
    Placed MethodDeclaration × List Code.CallBytes :=
  (m.1.edited E k, m.2.map (Code.CallBytes.edited E k))

/-- The tables of an attribute with the edit made in them. -/
def editedTable (E : Edit) (k : Nat) (t : List (Placed InnerClass) × List BootstrapEntry) :
    List (Placed InnerClass) × List BootstrapEntry :=
  (t.1.map (Placed.edited E k), t.2.map (BootstrapEntry.edited E k))

/-- All parts with the edit made in them. -/
def edited (E : Edit) (k : Nat) (p : Parts) : Parts where
  header := p.header.edited E k
  fields := p.fields.map (Placed.edited E k)
  methods := p.methods.map (editedMethod E k)
  tables := p.tables.map (editedTable E k)

/-- The parts of a class file, read one after the other. -/
def reading (version : Version) (pool : ConstantPool) : Reading Parts := do
  let header ← Layout.headerReading version pool
  let fields ← Reading.counted (Layout.fieldReading pool)
  let methods ← Reading.counted (Layout.methodReading pool)
  let tables ← Reading.counted do
    let a ← Attribute.reading pool
    Reading.check (Layout.attributeTables pool a)
  return ⟨header, fields, methods, tables⟩

end Parts

/-! ## 3. Reading the parts -/

section Follow

variable {E : Edit} {k : Nat} {pool pool' : ConstantPool}

namespace Layout

theorem follows_index : Reading.Follows E k indexReading indexReading (fun p => [p.slot])
    (Placed.editedIndex E k) :=
  Reading.follows_placed (fun _ _ => rfl) fun _ _ => rfl

theorem copied_className (hp : pool.Within pool') : Reading.Copied E k
    (do Reading.check (pool.className (← Reading.word16)))
    (do Reading.check (pool'.className (← Reading.word16))) :=
  Reading.copied_word16.bind fun _ => Reading.copied_check fun _ h => hp.className h

/-- What stands behind the access flags of the header. -/
def headerNames (pool : ConstantPool) : Reading (String × Option String × List String) := do
  let name ← Reading.check (pool.className (← Reading.word16))
  let superName ← Reading.check (pool.className? (← Reading.word16))
  let interfaces ← Reading.counted do Reading.check (pool.className (← Reading.word16))
  return (name, superName, interfaces)

theorem copied_headerNames (hp : pool.Within pool') :
    Reading.Copied E k (headerNames pool) (headerNames pool') :=
  Reading.copied_word16.bind fun _ => (Reading.copied_check fun _ h => hp.className h).bind
    fun _ => Reading.copied_word16.bind
      fun _ => (Reading.copied_check fun _ h => hp.className? h).bind
        fun _ => (copied_className hp).counted.bind fun _ => Reading.copied_pure _

theorem headerReading_eq (version : Version) (pool : ConstantPool) :
    headerReading version pool = (do
      let p ← indexReading
      let x ← headerNames pool
      return ⟨⟨version, p.value, x.1, x.2.1, x.2.2⟩, p.offset⟩) := by
  simp only [headerReading, indexReading, headerNames, bind_assoc, pure_bind]

theorem follows_header (hp : pool.Within pool') (version : Version) :
    Reading.Follows E k (headerReading version pool) (headerReading version pool')
      (fun h => [h.slot]) (Placed.edited E k) := by
  rw [headerReading_eq, headerReading_eq]
  exact follows_index.seq (copied_headerNames hp) (fun _ _ => rfl) fun _ _ => rfl

/-- The name and the descriptor of a field or method. -/
def memberNames (pool : ConstantPool) : Reading (String × String) := do
  let name ← Reading.check (pool.text (← Reading.word16))
  let descriptor ← Reading.check (pool.text (← Reading.word16))
  return (name, descriptor)

theorem copied_memberNames (hp : pool.Within pool') :
    Reading.Copied E k (memberNames pool) (memberNames pool') :=
  Reading.copied_word16.bind fun _ => (Reading.copied_check fun _ h => hp.text h).bind
    fun _ => Reading.copied_word16.bind fun _ => (Reading.copied_check fun _ h => hp.text h).bind
      fun _ => Reading.copied_pure _

/-- Attributes in which nothing is looked for. -/
def skipAttributes (pool : ConstantPool) : Reading (List Unit) :=
  Reading.counted do
    let _ ← Attribute.reading pool
    Reading.check (.ok ())

theorem copied_skipAttributes (hp : pool.Within pool') :
    Reading.Copied E k (skipAttributes pool) (skipAttributes pool') :=
  Reading.Copied.counted (Attribute.follows_attribute hp
    (Attribute.followed_of_eq (fun _ => rfl) (fun _ => rfl) rfl rfl))

theorem fieldReading_eq (pool : ConstantPool) :
    fieldReading pool = (do
      let p ← indexReading
      let x ← (do
        let x ← memberNames pool
        let _ ← skipAttributes pool
        return x)
      return ⟨⟨p.value, x.1, x.2⟩, p.offset⟩) := by
  have hskip : (do let _ ← Attribute.reading pool; Reading.check (.ok ())) =
      (do let _ ← Attribute.reading pool; return ()) := rfl
  simp only [fieldReading, indexReading, memberNames, skipAttributes, hskip, bind_assoc, pure_bind,
    Reading.counted_discard]

theorem follows_field (hp : pool.Within pool') :
    Reading.Follows E k (fieldReading pool) (fieldReading pool') (fun p => [p.slot])
      (Placed.edited E k) := by
  rw [fieldReading_eq, fieldReading_eq]
  have hrest : Reading.Copied E k (do
      let x ← memberNames pool
      let _ ← skipAttributes pool
      return x) (do
      let x ← memberNames pool'
      let _ ← skipAttributes pool'
      return x) :=
    (copied_memberNames hp).bind fun _ => (copied_skipAttributes hp).bind fun _ =>
      Reading.copied_pure _
  exact follows_index.seq hrest (fun _ _ => rfl) fun _ _ => rfl

/-- The calls in the body of a code attribute. -/
def codeCalls : Reading (List Code.CallBytes) := do
  let p ← codeReading
  Reading.check (Code.calls p.1 p.2)

theorem follows_code : Reading.Follows E k codeCalls codeCalls
    (·.flatMap Code.CallBytes.slots) (List.map (Code.CallBytes.edited E k)) := by
  simp only [codeCalls, codeReading, bind_assoc, pure_bind]
  refine (Reading.copied_bytes 4).bind fun _ => Reading.copied_word32.bind fun n => ?_
  intro s found t h
  obtain ⟨start, s₁, hstart, h⟩ := Reading.exists_of_bind_ok h
  cases hstart
  obtain ⟨code, s₂, hcode, h⟩ := Reading.exists_of_bind_ok h
  obtain ⟨hcalls, rfl⟩ := Reading.check_ok h
  obtain ⟨hrest, hoff, hlen⟩ := Reading.bytes_ok hcode
  obtain ⟨hasc, hedit⟩ := Code.calls_edited (k := k) hcalls
  rw [hlen, ← hoff] at hasc hedit
  refine ⟨code, hrest, by rw [hoff, hlen], hasc, fun hE u => ?_⟩
  have hoffset : Reading.offset ⟨s.offset + k, E.apply s.offset code ++ u⟩ =
      .ok (s.offset + k, ⟨s.offset + k, E.apply s.offset code ++ u⟩) := rfl
  have hbytes := Reading.bytes_append (o := s.offset + k) (x := E.apply s.offset code)
    (by rw [Edit.length_apply, hlen]) u
  rw [Reading.bind_ok hoffset, Reading.bind_ok hbytes]
  show Reading.check (Code.calls _ _) _ = _
  rw [hedit hE, hoff, Nat.add_right_comm]
  rfl

/-- The calls in an attribute, as what is found in its body: the two differ in their faults only. -/
theorem attributeCalls_eq_ok_iff {a : Attribute} {calls : List Code.CallBytes} :
    attributeCalls a = .ok calls ↔
      (if a.name = Attribute.code then a.contents codeCalls else .ok []) = .ok calls := by
  unfold attributeCalls
  split
  · rw [codeCalls, Attribute.contents_check]
    cases a.contents codeReading with
    | error fault => simp
    | ok p => simp
  · rfl

theorem followed_attributeCalls : Attribute.Followed E k attributeCalls attributeCalls
    (·.flatMap Code.CallBytes.slots) (List.map (Code.CallBytes.edited E k)) := by
  have hnone : Attribute.Followed E k (fun _ => .ok []) (fun _ => .ok [])
      (·.flatMap Code.CallBytes.slots) (List.map (Code.CallBytes.edited E k)) :=
    Attribute.followed_of_eq (fun _ => rfl) (fun _ => rfl) rfl rfl
  exact ((Attribute.followed_contents follows_code).ite Attribute.code hnone).of_ok
    (fun _ _ h => attributeCalls_eq_ok_iff.1 h) fun _ _ h => attributeCalls_eq_ok_iff.2 h

theorem methodReading_eq (pool : ConstantPool) :
    methodReading pool = (do
      let p ← indexReading
      let x ← (do
        let x ← memberNames pool
        let calls ← Reading.counted do
          let a ← Attribute.reading pool
          Reading.check (attributeCalls a)
        return (x, calls))
      return (⟨⟨p.value, x.1.1, x.1.2⟩, p.offset⟩, x.2.flatten)) := by
  simp only [methodReading, indexReading, memberNames, bind_assoc, pure_bind]

theorem follows_method (hp : pool.Within pool') :
    Reading.Follows E k (methodReading pool) (methodReading pool') Parts.methodSlots
      (Parts.editedMethod E k) := by
  rw [methodReading_eq, methodReading_eq]
  have hcalls := Reading.Follows.counted
    (Attribute.follows_attribute hp (followed_attributeCalls (E := E) (k := k)))
  have hrest := (copied_memberNames (E := E) (k := k) hp).pair hcalls
  refine follows_index.seq hrest (fun p x => ?_) fun p x => ?_
  · rw [Parts.methodSlots, List.flatten_eq_flatMap, List.flatMap_assoc]
    rfl
  · rw [Parts.editedMethod, List.map_flatten]
    rfl

/-- The names in a record of an inner class. -/
def innerClassNames (pool : ConstantPool) : Reading (String × Option String × Option String) := do
  let name ← Reading.check (pool.className (← Reading.word16))
  let outerName ← Reading.check (pool.className? (← Reading.word16))
  let innerName ← Reading.check (pool.text? (← Reading.word16))
  return (name, outerName, innerName)

theorem copied_innerClassNames (hp : pool.Within pool') :
    Reading.Copied E k (innerClassNames pool) (innerClassNames pool') :=
  Reading.copied_word16.bind fun _ => (Reading.copied_check fun _ h => hp.className h).bind
    fun _ => Reading.copied_word16.bind
      fun _ => (Reading.copied_check fun _ h => hp.className? h).bind
        fun _ => Reading.copied_word16.bind
          fun _ => (Reading.copied_check fun _ h => hp.text? h).bind fun _ => Reading.copied_pure _

theorem innerClassReading_eq (pool : ConstantPool) :
    innerClassReading pool = (do
      let x ← innerClassNames pool
      let p ← indexReading
      return ⟨⟨x.1, x.2.1, x.2.2, p.value⟩, p.offset⟩) := by
  simp only [innerClassReading, indexReading, innerClassNames, bind_assoc, pure_bind]

theorem follows_innerClass (hp : pool.Within pool') :
    Reading.Follows E k (innerClassReading pool) (innerClassReading pool')
      (fun p => [p.slot]) (Placed.edited E k) := by
  rw [innerClassReading_eq, innerClassReading_eq]
  exact (copied_innerClassNames hp).seq follows_index (fun _ _ => rfl) fun _ _ => rfl

theorem follows_bootstrap : Reading.Follows E k bootstrapReading bootstrapReading
    BootstrapEntry.slots (BootstrapEntry.edited E k) := by
  refine follows_index.seq follows_index.counted (fun handle arguments => ?_) fun _ _ => rfl
  rw [BootstrapEntry.slots, BootstrapEntry.places, List.map_cons, List.map_eq_flatMap]
  rfl

theorem followed_attributeTables (hp : pool.Within pool') :
    Attribute.Followed E k (attributeTables pool) (attributeTables pool') Parts.tableSlots
      (Parts.editedTable E k) := by
  have hrecords : Attribute.Followed E k
      (fun a => (·, []) <$> a.contents (Reading.counted (innerClassReading pool)))
      (fun a => (·, []) <$> a.contents (Reading.counted (innerClassReading pool')))
      Parts.tableSlots (Parts.editedTable E k) :=
    (Attribute.followed_contents (follows_innerClass hp).counted).map
      (fun rows => by
        rw [Parts.tableSlots, List.flatMap_nil, List.append_nil, List.map_eq_flatMap])
      fun _ => rfl
  have hrows : Attribute.Followed E k
      (fun a => ([], ·) <$> a.contents (Reading.counted bootstrapReading))
      (fun a => ([], ·) <$> a.contents (Reading.counted bootstrapReading))
      Parts.tableSlots (Parts.editedTable E k) :=
    (Attribute.followed_contents follows_bootstrap.counted).map (fun _ => rfl) fun _ => rfl
  exact hrecords.ite Attribute.innerClasses (hrows.ite Attribute.bootstrapMethods
    (Attribute.followed_of_eq (fun _ => rfl) (fun _ => rfl) rfl rfl))

end Layout

namespace Parts

theorem reading_eq (version : Version) (pool : ConstantPool) :
    reading version pool = (do
      let header ← Layout.headerReading version pool
      let x ← (do
        let fields ← Reading.counted (Layout.fieldReading pool)
        let x ← (do
          let methods ← Reading.counted (Layout.methodReading pool)
          let tables ← Reading.counted do
            let a ← Attribute.reading pool
            Reading.check (Layout.attributeTables pool a)
          return (methods, tables))
        return (fields, x))
      return ⟨header, x.1, x.2.1, x.2.2⟩) := by
  simp only [reading, bind_assoc, pure_bind]

/-- **The parts of an edited class file are the edited parts.** -/
theorem follows (hp : pool.Within pool') (version : Version) :
    Reading.Follows E k (reading version pool) (reading version pool') slots
      (edited E k) := by
  rw [reading_eq, reading_eq]
  have htables := Reading.Follows.counted (Attribute.follows_attribute hp
    (Layout.followed_attributeTables (E := E) (k := k) hp))
  have hmembers := (Layout.follows_field (E := E) (k := k) hp).counted.pair
    ((Layout.follows_method (E := E) (k := k) hp).counted.pair htables)
  refine (Layout.follows_header hp version).seq hmembers (fun _ _ => ?_) fun _ _ => rfl
  rw [slots, List.append_assoc, List.map_eq_flatMap]
  rfl

end Parts

end Follow

end ClassAccess
