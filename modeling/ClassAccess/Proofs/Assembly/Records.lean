import ClassAccess.Proofs.Assembly.Requests
import ClassAccess.Proofs.ConstantPool.Interning

/-!
# What an assembly holds after requests

The tables of an assembly hold numbers. Looked up in its pool, they say what was declared, and the
answers lead to what was asked for.

* `Tabled` -- the tables say what was declared; `Answers` -- an answer leads to what was asked for;
* `Effect`, `effect_of_perform` -- **what a request that succeeds does**;
* `Idle`, `leaves_perform` -- a request that fails adds constants and nothing else;
* `Records`, `records_performAll` -- **what holds after any sequence of requests**.

The pool only grows, so that what holds of a number goes on to hold.
-/

namespace ClassAccess

open Outcome ConstantPool Interning

/-! ## 1. Rows and answers -/

/-- The row names a member with a body or without. -/
structure MemberRow.Says (row : MemberRow) (pool : ConstantPool) (access : AccessFlags)
    (name descriptor : String) (body : Option Body) : Prop where
  access : row.access = access
  name : pool.text row.name = .ok name
  descriptor : pool.text row.descriptor = .ok descriptor
  body : row.body = body

/-- The row names an inner class. -/
structure InnerClassRow.Says (row : InnerClassRow) (pool : ConstantPool) (record : InnerClass) :
    Prop where
  name : pool.className row.name = .ok record.name
  outerName : pool.className? row.outerName = .ok record.outerName
  innerName : pool.text? row.innerName = .ok record.innerName
  access : row.access = record.access

section Within

variable {pool pool' : ConstantPool}

theorem MemberRow.Says.mono {row : MemberRow} {access : AccessFlags} {name descriptor : String}
    {body : Option Body} (h : row.Says pool access name descriptor body)
    (hp : pool.Within pool') : row.Says pool' access name descriptor body :=
  ⟨h.access, hp.text h.name, hp.text h.descriptor, h.body⟩

theorem InnerClassRow.Says.mono {row : InnerClassRow} {record : InnerClass}
    (h : row.Says pool record) (hp : pool.Within pool') : row.Says pool' record :=
  ⟨hp.className h.name, hp.className? h.outerName, hp.text? h.innerName, h.access⟩

end Within

namespace Assembly

/-- The tables, looked up in the pool, say what was declared. -/
structure Tabled (access : AccessFlags) (name : String) (superName : Option String)
    (pool : ConstantPool) (t : Tables) (d : Declared) : Prop where
  version : t.version = d.version
  access : t.access = access
  thisClass : pool.className t.thisClass = .ok name
  superClass : pool.className? t.superClass = .ok superName
  interfaces : List.Forall₂ (fun i n => pool.className i = .ok n) t.interfaces.toList d.interfaces
  fields : List.Forall₂ (fun row f => row.Says pool f.access f.name f.descriptor none)
    t.fields.toList d.fields
  methods : List.Forall₂ (fun row m => row.Says pool m.1.access m.1.name m.1.descriptor m.2)
    t.methods.toList d.methods
  innerClasses : List.Forall₂ (fun row r => row.Says pool r) t.innerClasses.toList d.innerClasses
  bootstraps : t.bootstraps.toList = d.bootstraps

/-- The answer to a request leads to what was asked for. -/
def Answers (pool : ConstantPool) : Request → UInt16 → Prop
  | .methodReference target, i =>
    ∃ c, pool.get i = .ok c ∧ Layout.isFieldReference c = false ∧ pool.member i = .ok target
  | .methodHandle handle, i => Layout.handleAt pool i = .ok handle.told
  | .methodType descriptor, i =>
    ∃ t, pool.get i = .ok (.methodType t) ∧ pool.text t = .ok descriptor
  | .callSite bootstrap name descriptor, i =>
    ∃ signature, pool.get i = .ok (.callSite bootstrap signature) ∧
      pool.nameAndType signature = .ok (name, descriptor)
  | _, _ => True

variable {access : AccessFlags} {name : String} {superName : Option String}
  {pool pool' : ConstantPool} {t : Tables} {d : Declared} {a a' : Assembly} {i : UInt16}
  {r : Request} {h : History}

/-- **What tables say in a pool they say in a pool that grew.** -/
theorem Tabled.mono (ht : Tabled access name superName pool t d) (hp : pool.Within pool') :
    Tabled access name superName pool' t d where
  version := ht.version
  access := ht.access
  thisClass := hp.className ht.thisClass
  superClass := hp.className? ht.superClass
  interfaces := ht.interfaces.imp fun _ _ h => hp.className h
  fields := ht.fields.imp fun _ _ h => h.mono hp
  methods := ht.methods.imp fun _ _ h => h.mono hp
  innerClasses := ht.innerClasses.imp fun _ _ h => h.mono hp
  bootstraps := ht.bootstraps

theorem Answers.mono (ha : Answers pool r i) (hp : pool.Within pool') : Answers pool' r i := by
  cases r with
  | methodReference target =>
      obtain ⟨c, hc, hfield, hmember⟩ := ha
      exact ⟨c, hp.get hc, hfield, hp.member hmember⟩
  | methodHandle handle => exact Layout.handleAt_within hp ha
  | methodType descriptor =>
      obtain ⟨t, ht, htext⟩ := ha
      exact ⟨t, hp.get ht, hp.text htext⟩
  | callSite bootstrap name descriptor =>
      obtain ⟨signature, hs, hname⟩ := ha
      exact ⟨signature, hp.get hs, hp.nameAndType hname⟩
  | setVersion | addInterface | addField | addMethod | addInnerClass | classReference
  | fieldReference | string | addBootstrap => trivial

/-! ## 2. Steps of an assembly -/

theorem interning_ok {α : Type} {step : Interning α} {x : α} (h : interning step a = .ok x a') :
    ∃ pool', step a.pool = .ok x pool' ∧ a' = ⟨pool', a.tables⟩ := by
  obtain ⟨pool, tables⟩ := a
  unfold interning at h
  simp only at h
  split at h
  · rename_i hstep
    cases h
    exact ⟨_, hstep, rfl⟩
  · cases h

theorem interning_error {α : Type} {step : Interning α} {e : Fault}
    (h : interning step a = .error e a') :
    ∃ pool', step a.pool = .error e pool' ∧ a' = ⟨pool', a.tables⟩ := by
  obtain ⟨pool, tables⟩ := a
  unfold interning at h
  simp only at h
  split at h
  · cases h
  · rename_i hstep
    cases h
    exact ⟨_, hstep, rfl⟩

theorem modifyTables_ok {f : Tables → Tables} {x : Unit} (h : modifyTables f a = .ok x a') :
    a' = ⟨a.pool, f a.tables⟩ := by
  cases h
  rfl

/-- Nothing happened but that constants were added which are told by their numbers. -/
structure Idle (a a' : Assembly) : Prop where
  tables : a'.tables = a.tables
  grown : Grown Constant.isPlain a.pool a'.pool

theorem Idle.refl (a : Assembly) : Idle a a := ⟨rfl, .refl⟩

theorem Idle.trans {a a' a'' : Assembly} (h : Idle a a') (h' : Idle a' a'') : Idle a a'' :=
  ⟨h'.tables.trans h.tables, h.grown.trans h'.grown⟩

theorem keeps_interning {α : Type} {step : Interning α} (h : Keeps (Grown Constant.isPlain) step) :
    Keeps Idle (interning step) := by
  refine ⟨fun a x a' ha => ?_, fun a e a' ha => ?_⟩
  · obtain ⟨pool', hstep, rfl⟩ := interning_ok ha
    exact ⟨rfl, h.1 _ _ _ hstep⟩
  · obtain ⟨pool', hstep, rfl⟩ := interning_error ha
    exact ⟨rfl, h.2 _ _ _ hstep⟩

theorem leaves_interning {α : Type} {step : Interning α}
    (h : Leaves (Grown Constant.isPlain) step) : Leaves Idle (interning step) := by
  intro a e a' ha
  obtain ⟨pool', hstep, rfl⟩ := interning_error ha
  exact ⟨rfl, h _ _ _ hstep⟩

theorem keeps_idle_bind {α β : Type} {x : Assembling α} {f : α → Assembling β}
    (hx : Keeps Idle x) (hf : ∀ a, Keeps Idle (f a)) : Keeps Idle (x >>= f) :=
  hx.bind (fun _ _ _ h h' => h.trans h') hf

theorem leaves_idle_bind {α β : Type} {x : Assembling α} {f : α → Assembling β}
    (hx : Keeps Idle x) (hf : ∀ a, Leaves Idle (f a)) : Leaves Idle (x >>= f) :=
  hx.leaves_bind (fun _ _ _ h h' => h.trans h') hf

theorem leaves_modifyTables (f : Tables → Tables) : Leaves Idle (modifyTables f) :=
  fun _ _ _ h => by cases h

theorem keeps_memberRow (access : AccessFlags) (name descriptor : String) (body : Option Body) :
    Keeps Idle (memberRow access name descriptor body) :=
  keeps_idle_bind (keeps_interning (keeps_text name)) fun _ =>
    keeps_idle_bind (keeps_interning (keeps_text descriptor)) fun _ => keeps_pure Idle.refl _

/-- A step that is followed by an answer of zero. -/
theorem leaves_return {step : Assembling Unit} (h : Leaves Idle step) :
    Leaves Idle (do step; return (0 : UInt16)) := by
  intro a e a' ha
  rcases bind_error_iff.1 ha with ha | ⟨_, _, _, ha⟩
  · exact h _ _ _ ha
  · cases ha

/-- **A request that fails adds constants and nothing else.** -/
theorem leaves_perform (r : Request) : Leaves Idle r.perform := by
  cases r with
  | setVersion => exact leaves_return (leaves_modifyTables _)
  | addInterface name =>
      exact leaves_return (leaves_idle_bind (keeps_interning (keeps_classNamed name)) fun _ =>
        leaves_modifyTables _)
  | addField | addMethod =>
      exact leaves_return (leaves_idle_bind (keeps_memberRow _ _ _ _) fun _ =>
        leaves_modifyTables _)
  | addInnerClass record =>
      exact leaves_return
        (leaves_idle_bind (keeps_interning (keeps_classNamed record.name)) fun _ =>
          leaves_idle_bind (keeps_interning (keeps_classNamed? record.outerName)) fun _ =>
            leaves_idle_bind (keeps_interning (keeps_text? record.innerName)) fun _ =>
              leaves_modifyTables _)
  | classReference name => exact (keeps_interning (keeps_classNamed name)).2
  | fieldReference => exact (keeps_interning (keeps_fieldReference _ _ _)).2
  | methodReference target => exact (keeps_interning (keeps_methodReference target)).2
  | methodHandle handle =>
      refine leaves_interning ?_
      rw [methodHandle_eq]
      exact (keeps_handleReference handle).leaves_bind (fun _ _ _ h h' => h.trans h') fun _ =>
        leaves_constant _ fun _ => .refl
  | methodType descriptor =>
      exact leaves_interning ((keeps_text descriptor).leaves_bind
        (fun _ _ _ h h' => h.trans h') fun _ => leaves_constant _ fun _ => .refl)
  | string value => exact (keeps_interning (keeps_string value)).2
  | addBootstrap handle arguments =>
      intro a e a' h
      simp only [Request.perform, addBootstrap] at h
      split at h
      · cases h
      · cases h
        exact Idle.refl a
  | callSite => exact (keeps_interning (keeps_callSite _ _ _)).2

/-! ## 3. What a request does -/

/-- Whether the request is for a handle or a method type, which arguments are told as. -/
def isTold : Request → Bool
  | .methodHandle _ | .methodType _ => true
  | _ => false

/-- What a request with an answer does: it adds constants and is noted in the tables, its answer
    leads to what was asked for, and handles and method types are added for it alone. -/
structure Effect (r : Request) (i : UInt16) (a a' : Assembly) : Prop where
  grown : Grown Constant.isEntry a.pool a'.pool
  tabled : ∀ access name superName d, Tabled access name superName a.pool a.tables d →
    Tabled access name superName a'.pool a'.tables (d.note r)
  answers : Answers a'.pool r i
  told : ∀ j c, a'.pool.get j = .ok c → c.isTold = true →
    a.pool.get j = .ok c ∨ j = i ∧ isTold r = true

/-- A request that adds nothing that is told by more than its number. -/
theorem Effect.of_plain (hgrown : Grown Constant.isPlain a.pool a'.pool)
    (htabled : ∀ access name superName d, Tabled access name superName a.pool a.tables d →
      Tabled access name superName a'.pool a'.tables (d.note r))
    (hanswers : Answers a'.pool r i) : Effect r i a a' := by
  refine ⟨hgrown.mono fun _ => Constant.isEntry_of_isPlain, htabled, hanswers,
    fun j c hc htold => ?_⟩
  rcases hgrown.get hc with hc | hplain
  · exact .inl hc
  · rw [Constant.isTold_of_isPlain hplain] at htold
    cases htold

/-- A request for a constant that is told by its number. -/
theorem Effect.of_interning {step : Interning UInt16} (hstep : Keeps (Grown Constant.isPlain) step)
    (hok : interning step a = .ok i a') (hnote : ∀ d : Declared, d.note r = d)
    (hanswers : ∀ pool', step a.pool = .ok i pool' → Answers pool' r i) : Effect r i a a' := by
  obtain ⟨pool', hpool, rfl⟩ := interning_ok hok
  have hgrown := hstep.1 _ _ _ hpool
  refine .of_plain hgrown (fun access name superName d ht => ?_) (hanswers pool' hpool)
  rw [hnote]
  exact ht.mono hgrown.within

/-- A request for a constant that an argument is told as, made of an entry that is not. -/
theorem Effect.of_told {step : Interning UInt16} {make : UInt16 → Constant}
    (hp : a.pool.Healthy) (hstep : Keeps (Grown Constant.isPlain) step)
    (hmake : ∀ n, (make n).isEntry = true) (htold : isTold r = true)
    (hok : interning (do let n ← step; Interning.constant (make n)) a = .ok i a')
    (hnote : ∀ d : Declared, d.note r = d)
    (hanswers : ∀ n pool₁ pool', step a.pool = .ok n pool₁ → pool₁.Within pool' →
      pool'.get i = .ok (make n) → Answers pool' r i) : Effect r i a a' := by
  obtain ⟨pool', hpool, rfl⟩ := interning_ok hok
  obtain ⟨n, pool₁, hn, hconstant⟩ := bind_ok_iff.1 hpool
  have hgrown₁ := hstep.1 _ _ _ hn
  have hu := Constant.ne_unusable_of_isEntry (hmake n)
  have hgrown₂ : Grown Constant.isEntry pool₁ pool' :=
    (keeps_constant hu (hmake n)).1 _ _ _ hconstant
  have hgrown : Grown Constant.isEntry a.pool pool' :=
    (hgrown₁.mono fun _ => Constant.isEntry_of_isPlain).trans hgrown₂
  have hp₁ := hgrown₁.healthy hp
  refine ⟨hgrown, fun access name superName d ht => ?_, ?_, fun j c hc hctold => ?_⟩
  · rw [hnote]
    exact ht.mono hgrown.within
  · exact hanswers n pool₁ pool' hn hgrown₂.within (constant_ok hp₁ hu hconstant)
  · rcases get_of_constant hp₁ hu hconstant hc with hc | hj
    · rcases hgrown₁.get hc with hc | hplain
      · exact .inl hc
      · rw [Constant.isTold_of_isPlain hplain] at hctold
        cases hctold
    · exact .inr ⟨hj, htold⟩

/-- A declaration: constants are added, and then a row that they are in. -/
theorem Effect.of_declaration {f : Tables → Tables} {x : Unit}
    (h : modifyTables f ⟨pool', a.tables⟩ = .ok x a')
    (hgrown : Grown Constant.isPlain a.pool pool') (hanswers : Answers pool' r i)
    (htabled : ∀ access name superName d, Tabled access name superName pool' a.tables d →
      Tabled access name superName pool' (f a.tables) (d.note r)) : Effect r i a a' := by
  cases modifyTables_ok h
  exact .of_plain hgrown (fun access name superName d ht =>
    htabled access name superName d (ht.mono hgrown.within)) hanswers

/-- One more row says one more thing. -/
theorem push_rows {α β : Type} {q : α → β → Prop} {rows : Array α} {l : List β} {row : α} {b : β}
    (h : List.Forall₂ q rows.toList l) (hrow : q row b) :
    List.Forall₂ q (rows.push row).toList (l ++ [b]) := by
  rw [Array.toList_push]
  exact List.rel_append h (.cons hrow .nil)

theorem memberRow_ok {body : Option Body} {descriptor : String} {row : MemberRow}
    (hp : a.pool.Healthy) (h : memberRow access name descriptor body a = .ok row a') :
    ∃ pool', Grown Constant.isPlain a.pool pool' ∧ a' = ⟨pool', a.tables⟩ ∧
      row.Says pool' access name descriptor body := by
  obtain ⟨n, a₁, hname, h⟩ := bind_ok_iff.1 h
  obtain ⟨d, a₂, hdescriptor, h⟩ := bind_ok_iff.1 h
  cases h
  obtain ⟨pool₁, hn, rfl⟩ := interning_ok hname
  obtain ⟨pool₂, hd, rfl⟩ := interning_ok hdescriptor
  have hgrown₁ := (keeps_text name).1 _ _ _ hn
  have hgrown₂ := (keeps_text descriptor).1 _ _ _ hd
  exact ⟨pool₂, hgrown₁.trans hgrown₂, rfl, rfl, hgrown₂.within.text (text_ok hp hn),
    text_ok (hgrown₁.healthy hp) hd, rfl⟩

theorem effect_addInterface (hp : a.pool.Healthy)
    (h : (Request.addInterface name).perform a = .ok i a') :
    Effect (.addInterface name) i a a' := by
  obtain ⟨_, a₁, h, hi⟩ := bind_ok_iff.1 h
  cases hi
  obtain ⟨n, a₂, hname, h⟩ := bind_ok_iff.1 h
  obtain ⟨pool', hn, rfl⟩ := interning_ok hname
  refine .of_declaration h ((keeps_classNamed name).1 _ _ _ hn) trivial fun _ _ _ d ht => ?_
  exact { ht with interfaces := push_rows ht.interfaces (classNamed_ok hp hn) }

theorem effect_addField {declaration : FieldDeclaration} (hp : a.pool.Healthy)
    (h : (Request.addField declaration).perform a = .ok i a') :
    Effect (.addField declaration) i a a' := by
  obtain ⟨_, a₁, h, hi⟩ := bind_ok_iff.1 h
  cases hi
  obtain ⟨row, a₂, hrow, h⟩ := bind_ok_iff.1 h
  obtain ⟨pool', hgrown, rfl, hsays⟩ := memberRow_ok hp hrow
  refine .of_declaration h hgrown trivial fun _ _ _ d ht => ?_
  exact { ht with fields := push_rows ht.fields hsays }

theorem effect_addMethod {declaration : MethodDeclaration} {body : Option Body}
    (hp : a.pool.Healthy) (h : (Request.addMethod declaration body).perform a = .ok i a') :
    Effect (.addMethod declaration body) i a a' := by
  obtain ⟨_, a₁, h, hi⟩ := bind_ok_iff.1 h
  cases hi
  obtain ⟨row, a₂, hrow, h⟩ := bind_ok_iff.1 h
  obtain ⟨pool', hgrown, rfl, hsays⟩ := memberRow_ok hp hrow
  refine .of_declaration h hgrown trivial fun _ _ _ d ht => ?_
  exact { ht with methods := push_rows ht.methods hsays }

theorem effect_addInnerClass {record : InnerClass} (hp : a.pool.Healthy)
    (h : (Request.addInnerClass record).perform a = .ok i a') :
    Effect (.addInnerClass record) i a a' := by
  obtain ⟨_, a₁, h, hi⟩ := bind_ok_iff.1 h
  cases hi
  obtain ⟨n, a₂, hname, h⟩ := bind_ok_iff.1 h
  obtain ⟨o, a₃, houter, h⟩ := bind_ok_iff.1 h
  obtain ⟨m, a₄, hinner, h⟩ := bind_ok_iff.1 h
  obtain ⟨pool₁, hn, rfl⟩ := interning_ok hname
  obtain ⟨pool₂, ho, rfl⟩ := interning_ok houter
  obtain ⟨pool₃, hm, rfl⟩ := interning_ok hinner
  have hgrown₁ := (keeps_classNamed record.name).1 _ _ _ hn
  have hgrown₂ := (keeps_classNamed? record.outerName).1 _ _ _ ho
  have hgrown₃ := (keeps_text? record.innerName).1 _ _ _ hm
  have hp₁ := hgrown₁.healthy hp
  refine .of_declaration h (hgrown₁.trans (hgrown₂.trans hgrown₃)) trivial fun _ _ _ d ht => ?_
  refine { ht with innerClasses := push_rows ht.innerClasses ⟨?_, ?_, ?_, rfl⟩ }
  · exact (hgrown₂.trans hgrown₃).within.className (classNamed_ok hp hn)
  · exact hgrown₃.within.className? (className?_ok hp₁ ho)
  · exact text?_ok (hgrown₂.healthy hp₁) hm

theorem effect_addBootstrap {handle : UInt16} {arguments : List UInt16}
    (h : (Request.addBootstrap handle arguments).perform a = .ok i a') :
    Effect (.addBootstrap handle arguments) i a a' := by
  simp only [Request.perform, addBootstrap] at h
  split at h
  · cases h
    refine .of_plain .refl (fun _ _ _ d ht => ?_) trivial
    refine { ht with bootstraps := ?_ }
    rw [Array.toList_push, ht.bootstraps]
    rfl
  · cases h

theorem told_kind (handle : Handle) : handle.told.kind = handle.kind := by
  unfold Handle.told
  split <;> rfl

/-- What a handle refers to is looked up as the handle is told. -/
theorem handleReference_ok {handle : Handle} (hp : pool.Healthy)
    (h : handleReference handle pool = .ok i pool') : pool'.member i = .ok handle.told.target := by
  unfold handleReference at h
  unfold Handle.told
  split at h
  · rename_i hkind
    rw [if_pos hkind]
    exact fieldReference_ok hp h
  · rename_i hkind
    rw [if_neg hkind]
    obtain ⟨_, _, _, hmember⟩ := methodReference_ok hp h
    exact hmember

theorem effect_methodHandle {handle : Handle} (hp : a.pool.Healthy)
    (h : (Request.methodHandle handle).perform a = .ok i a') :
    Effect (.methodHandle handle) i a a' := by
  have hstep : interning (methodHandle handle) a = .ok i a' := h
  rw [methodHandle_eq] at hstep
  refine .of_told hp (keeps_handleReference handle) (fun _ => rfl) rfl hstep (fun _ => rfl)
    fun n pool₁ pool' hn hwithin hget => ?_
  refine Layout.handleAt_eq_ok_iff.2 ⟨n, ?_, hwithin.member (handleReference_ok hp hn)⟩
  rw [told_kind]
  exact hget

/-- **What a request that succeeds does.** -/
theorem effect_of_perform (hp : a.pool.Healthy) (h : r.perform a = .ok i a') :
    Effect r i a a' := by
  cases r with
  | setVersion version =>
      cases h
      exact .of_plain .refl (fun _ _ _ d ht => { ht with version := rfl }) trivial
  | addInterface => exact effect_addInterface hp h
  | addField => exact effect_addField hp h
  | addMethod => exact effect_addMethod hp h
  | addInnerClass => exact effect_addInnerClass hp h
  | addBootstrap => exact effect_addBootstrap h
  | classReference name =>
      exact .of_interning (keeps_classNamed name) h (fun _ => rfl) fun _ _ => trivial
  | fieldReference owner name descriptor =>
      exact .of_interning (keeps_fieldReference owner name descriptor) h (fun _ => rfl)
        fun _ _ => trivial
  | string value => exact .of_interning (keeps_string value) h (fun _ => rfl) fun _ _ => trivial
  | methodReference target =>
      exact .of_interning (keeps_methodReference target) h (fun _ => rfl)
        fun _ hstep => methodReference_ok hp hstep
  | callSite bootstrap name descriptor =>
      refine .of_interning (keeps_callSite bootstrap name descriptor) h (fun _ => rfl)
        fun pool' hstep => ?_
      obtain ⟨n, pool₁, hn, hconstant⟩ := bind_ok_iff.1 hstep
      have hgrown : Grown Constant.isPlain pool₁ pool' :=
        (keeps_constant (by nofun) rfl).1 _ _ _ hconstant
      have hp₁ := ((keeps_nameAndType name descriptor).1 _ _ _ hn).healthy hp
      exact ⟨n, constant_ok hp₁ (by nofun) hconstant,
        hgrown.within.nameAndType (nameAndType_ok hp hn)⟩
  | methodType descriptor =>
      exact .of_told hp (keeps_text descriptor) (fun _ => rfl) rfl h (fun _ => rfl)
        fun n _ _ hn hwithin hget => ⟨n, hget, hwithin.text (text_ok hp hn)⟩
  | methodHandle handle => exact effect_methodHandle hp h

/-! ## 4. Runs -/

/-- What holds of an assembly with a history. -/
structure Records (access : AccessFlags) (name : String) (superName : Option String)
    (h : History) (a : Assembly) : Prop where
  grown : Grown Constant.isEntry {} a.pool
  tabled : Tabled access name superName a.pool a.tables h.declared
  answers : ∀ r i, (r, i) ∈ h → Answers a.pool r i
  told : ∀ i c, a.pool.get i = .ok c → c.isTold = true → ∃ r, (r, i) ∈ h ∧ isTold r = true

theorem Records.healthy (ha : Records access name superName h a) : a.pool.Healthy :=
  ha.grown.healthy healthy_empty

theorem declared_append (h : History) (r : Request) (i : UInt16) :
    History.declared (h ++ [(r, i)]) = h.declared.note r := by
  rw [History.declared, List.map_append, List.foldl_append]
  rfl

/-- A request that succeeds takes its place in the history. -/
theorem Records.perform_ok (ha : Records access name superName h a)
    (hr : r.perform a = .ok i a') : Records access name superName (h ++ [(r, i)]) a' := by
  have he := effect_of_perform ha.healthy hr
  refine ⟨ha.grown.trans he.grown, ?_, fun r' j hj => ?_, fun j c hc hctold => ?_⟩
  · rw [declared_append]
    exact he.tabled _ _ _ _ ha.tabled
  · rcases List.mem_append.1 hj with hj | hj
    · exact (ha.answers r' j hj).mono he.grown.within
    · cases List.mem_singleton.1 hj
      exact he.answers
  · rcases he.told j c hc hctold with hc | ⟨rfl, htold⟩
    · obtain ⟨r', hr', htold⟩ := ha.told j c hc hctold
      exact ⟨r', List.mem_append_left _ hr', htold⟩
    · exact ⟨r, List.mem_append_right _ (List.mem_singleton.2 rfl), htold⟩

/-- Constants that are told by their numbers leave the history as it is. -/
theorem Records.idle (ha : Records access name superName h a) (hidle : Idle a a') :
    Records access name superName h a' := by
  obtain ⟨htables, hgrown⟩ := hidle
  refine ⟨ha.grown.trans (hgrown.mono fun _ => Constant.isEntry_of_isPlain), ?_,
    fun r' j hj => (ha.answers r' j hj).mono hgrown.within, fun j c hc hctold => ?_⟩
  · rw [htables]
    exact ha.tabled.mono hgrown.within
  · rcases hgrown.get hc with hc | hplain
    · exact ha.told j c hc hctold
    · rw [Constant.isTold_of_isPlain hplain] at hctold
      cases hctold

/-- **What holds after requests**, whichever of them failed. -/
theorem records_performAll (requests : List Request) (ha : Records access name superName h a) :
    Records access name superName (h ++ (performAll requests a).1) (performAll requests a).2 := by
  induction requests generalizing h a with
  | nil => simpa only [performAll, List.append_nil] using ha
  | cons r requests ih =>
      rw [performAll]
      split
      · rename_i i a' hr
        have := ih (ha.perform_ok hr)
        rwa [List.append_assoc, List.singleton_append] at this
      · rename_i hr
        exact ih (ha.idle (leaves_perform r _ _ _ hr))

/-- **What holds at the start.** -/
theorem records_start (hstart : start access name superName = .ok a) :
    Records access name superName [] a := by
  unfold start at hstart
  simp only at hstart
  split at hstart
  · rename_i thisClass superClass pool hnames
    cases hstart
    obtain ⟨c, pool₁, hthis, h⟩ := bind_ok_iff.1 hnames
    obtain ⟨s, pool₂, hsuper, h⟩ := bind_ok_iff.1 h
    cases h
    have hgrown₁ := (keeps_classNamed name).1 _ _ _ hthis
    have hgrown₂ := (keeps_classNamed? superName).1 _ _ _ hsuper
    have hgrown := hgrown₁.trans hgrown₂
    have hp₁ := hgrown₁.healthy healthy_empty
    refine ⟨hgrown.mono fun _ => Constant.isEntry_of_isPlain, ?_, fun r i hr => (by cases hr),
      fun i c hc hctold => ?_⟩
    · exact ⟨rfl, rfl, hgrown₂.within.className (classNamed_ok healthy_empty hthis),
        className?_ok hp₁ hsuper, .nil, .nil, .nil, .nil, rfl⟩
    · rcases hgrown.get hc with hc | hplain
      · have hempty := (get_eq_ok_iff.1 hc).1
        have hzero : i.toNat = 0 := by
          have := (Array.getElem?_eq_some_iff.1 hempty).1
          exact Nat.lt_one_iff.1 this
        rw [hzero] at hempty
        cases hempty
        cases hctold
      · rw [Constant.isTold_of_isPlain hplain] at hctold
        cases hctold
  · cases hstart

end Assembly

end ClassAccess
