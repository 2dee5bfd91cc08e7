import ClassAccess.Proofs.Assembly.Records
import ClassAccess.Proofs.ClassFile.Forms
import ClassAccess.Proofs.ClassFile.Parts

/-!
# Reading the tables of an assembly

Each row of a table is written as bytes, and reading takes these bytes and says what the row says.

* `takes_table` -- a table takes what it was written as, if each row does;
* `takes_attribute` -- an attribute, whose body is looked at on its own;
* `takes_header`, `takes_field`, `takes_method`, `takes_innerClass`, `takes_bootstrap` -- **one row
  or part of each kind**;
* `takes_tables`, `takes_parts` -- the attributes of a class, and everything behind its pool.
-/

namespace ClassAccess

open Outcome Reading Instruction

/-! ## 1. Tables and attributes -/

section Tables

variable {α β γ : Type} {pool : ConstantPool} {x held : Bytes}

namespace Assembly

theorem table_ok {row : α → Except Fault Bytes} {rows : List α} (h : table row rows = .ok x) :
    rows.length < 0x10000 ∧ ∃ xs, List.Forall₂ (fun r y => row r = .ok y) rows xs ∧
      x = BigEndian.bytes16 xs.length.toUInt16 ++ xs.flatten := by
  unfold table at h
  split at h
  · rename_i hlen
    obtain ⟨xs, hxs, h⟩ := exists_of_bind_ok h
    cases h
    rw [mapM_eq_ok_iff] at hxs
    exact ⟨hlen, xs, hxs, by rw [hxs.length_eq]⟩
  · cases h

/-- **A table takes what it was written as**, if each row does. -/
theorem takes_table {row : α → Except Fault Bytes} {step : Reading β} {q : γ → β → Prop}
    {rows : List α} {cs : List γ} (h : table row rows = .ok x)
    (hrows : List.Forall₂ (fun r c => ∀ y, row r = .ok y → Takes step y (q c)) rows cs) :
    Takes (counted step) x (List.Forall₂ q cs) := by
  obtain ⟨hlen, xs, hxs, rfl⟩ := table_ok h
  rw [hxs.length_eq] at hlen
  refine Takes.counted ?_ hlen
  clear h hlen
  induction hrows generalizing xs with
  | nil =>
      cases hxs
      exact .nil
  | cons hrow _ ih =>
      cases hxs with
      | cons hx hxs => exact .cons (hrow _ hx) (ih _ hxs)

theorem attributeBytes_ok {name : UInt16} (h : attributeBytes name held = .ok x) :
    held.length < 0x100000000 ∧
      x = BigEndian.bytes16 name ++ (BigEndian.bytes32 held.length.toUInt32 ++ held) := by
  unfold attributeBytes at h
  split at h
  · rename_i hlen
    cases h
    exact ⟨hlen, List.append_assoc _ _ _⟩
  · cases h

end Assembly

namespace Attribute

/-- What an attribute is read as: its name, and the contents at the front of its body. -/
structure Holds (a : Attribute) (text : String) (held : Bytes) : Prop where
  name : a.name = text
  body : ∃ u, a.body.rest = held ++ u
  length : a.length = held.length

/-- **What takes the front of the contents is read from the body.** -/
theorem Holds.read {a : Attribute} {text : String} {y z : Bytes} {r : Reading β}
    {q : β → Prop} (ha : a.Holds text (y ++ z)) (hr : Takes r y q) :
    ∃ v, a.contents r = .ok v ∧ q v := by
  obtain ⟨u, hu⟩ := ha.body
  obtain ⟨v, hv, hq⟩ := hr a.body.offset (z ++ u)
  rw [← List.append_assoc, ← hu] at hv
  refine ⟨v, ?_, hq⟩
  unfold Attribute.contents
  simp only [hv]
  rw [if_neg]
  have hlen := ha.length
  rw [List.length_append] at hlen
  unfold finish
  omega

/-- **An attribute takes what it was written as**, and what is looked for in it is found. -/
theorem takes_attribute {name : UInt16} {text : String} {f : Attribute → Except Fault β}
    {q : β → Prop} (hname : pool.text name = .ok text)
    (h : Assembly.attributeBytes name held = .ok x)
    (hf : ∀ a : Attribute, a.Holds text held → ∃ v, f a = .ok v ∧ q v) :
    Takes (do let a ← Attribute.reading pool; check (f a)) x q := by
  obtain ⟨hlen, rfl⟩ := Assembly.attributeBytes_ok h
  have hn : held.length.toUInt32.toNat = held.length := by
    show held.length % 4294967296 = _
    omega
  have hread : Takes (Attribute.reading pool) (BigEndian.bytes16 name ++
      (BigEndian.bytes32 held.length.toUInt32 ++ held)) (Holds · text held) := by
    refine Takes.word16_bind (Takes.check_bind hname (Takes.word32_bind fun o u => ?_))
    refine ⟨⟨text, ⟨o, held ++ u⟩, held.length⟩, ?_, rfl, ⟨u, rfl⟩, rfl⟩
    have hsource : source ⟨o, held ++ u⟩ = .ok (⟨o, held ++ u⟩, ⟨o, held ++ u⟩) := rfl
    rw [bind_ok hsource, bind_ok (bytes_append hn.symm u), hn]
    rfl
  rw [← List.append_nil (BigEndian.bytes16 name ++ _)]
  refine hread.bind fun a ha => ?_
  obtain ⟨v, hv, hq⟩ := hf a ha
  exact takes_check hv hq

end Attribute

end Tables

/-! ## 2. Rows -/

/-- The entry has the numbers of the row. -/
structure BootstrapEntry.Of (e : BootstrapEntry) (row : BootstrapRow) : Prop where
  handle : e.handle.value = row.handle
  arguments : List.Forall₂ (fun i p => Placed.value p = i) row.arguments e.arguments

namespace Assembly

variable {access : AccessFlags} {name descriptor : String} {pool : ConstantPool} {x : Bytes}
  {code : UInt16}

theorem memberBytes_ok {row : MemberRow} (h : memberBytes code row = .ok x) :
    ∃ y, table (fun body => attributeBytes code (codeBytes body)) row.body.toList = .ok y ∧
      x = BigEndian.bytes16 row.access ++ (BigEndian.bytes16 row.name ++
        (BigEndian.bytes16 row.descriptor ++ y)) := by
  obtain ⟨y, hy, h⟩ := exists_of_bind_ok h
  cases h
  exact ⟨y, hy, by simp only [List.append_assoc]⟩

theorem takes_field {row : MemberRow} (hrow : row.Says pool access name descriptor none)
    (h : memberBytes code row = .ok x) :
    Takes (Layout.fieldReading pool) x fun p => p.value = ⟨access, name, descriptor⟩ := by
  obtain ⟨y, hy, rfl⟩ := memberBytes_ok h
  rw [hrow.body] at hy
  rw [hrow.access, ← List.append_nil y]
  refine Takes.offset_bind fun o => Takes.word16_bind (Takes.word16_bind ?_)
  refine Takes.check_bind hrow.name (Takes.word16_bind (Takes.check_bind hrow.descriptor ?_))
  exact (takes_table (q := fun (_ : Empty) _ => True) hy .nil).bind fun _ _ => takes_pure rfl

theorem takes_codeReading (body : Body) (hlen : body.code.length < 0x100000000) :
    Takes Layout.codeReading (BigEndian.bytes16 body.maxStack ++ BigEndian.bytes16 body.maxLocals ++
      (BigEndian.bytes32 body.code.length.toUInt32 ++ (body.code ++ []))) fun p =>
        p.2 = body.code := by
  have hn : body.code.length = body.code.length.toUInt32.toNat := by
    show _ = body.code.length % 4294967296
    omega
  refine (takes_bytes (n := 4) rfl).bind fun _ _ => Takes.word32_bind ?_
  exact Takes.offset_bind fun start => (takes_bytes hn).bind fun _ hcode => takes_pure hcode

/-- The calls in a body are those of its instructions. -/
theorem attributeCalls_of_holds {body : Body} {forms : List Form}
    (hcode : codeOf forms = body.code) (hforms : Assembled 0 forms)
    (hlen : (codeBytes body).length < 0x100000000) {a : Attribute}
    (ha : a.Holds Attribute.code (codeBytes body)) :
    ∃ calls, Layout.attributeCalls a = .ok calls ∧ ∃ start, calls = callsOf start 0 forms := by
  have hle : body.code.length < 0x100000000 := by
    simp only [codeBytes, List.length_append, BigEndian.length_bytes16,
      BigEndian.length_bytes32] at hlen
    omega
  have hbytes : codeBytes body = (BigEndian.bytes16 body.maxStack ++
      BigEndian.bytes16 body.maxLocals ++ (BigEndian.bytes32 body.code.length.toUInt32 ++
        (body.code ++ []))) ++ [0, 0, 0, 0] := by
    simp only [codeBytes, List.append_assoc, List.nil_append]
  rw [hbytes] at ha
  obtain ⟨⟨start, found⟩, hfound, hv⟩ := ha.read (takes_codeReading body hle)
  simp only at hv
  subst hv
  refine ⟨callsOf start 0 forms, ?_, start, rfl⟩
  simp only [Layout.attributeCalls, ha.name, if_true, hfound]
  rw [← hcode, calls_codeOf hforms]

theorem takes_method {row : MemberRow} {body : Option Body} {forms : Bytes → List Form}
    (hrow : row.Says pool access name descriptor body)
    (hname : ∀ b ∈ body, pool.text code = .ok Attribute.code)
    (hcode : ∀ b ∈ body, codeOf (forms b.code) = b.code ∧ Assembled 0 (forms b.code))
    (h : memberBytes code row = .ok x) :
    Takes (Layout.methodReading pool) x fun p => p.1.value = ⟨access, name, descriptor⟩ ∧
      ∃ start, p.2 = body.toList.flatMap fun b => callsOf start 0 (forms b.code) := by
  obtain ⟨y, hy, rfl⟩ := memberBytes_ok h
  rw [hrow.body] at hy
  rw [hrow.access, ← List.append_nil y]
  refine Takes.offset_bind fun o => Takes.word16_bind (Takes.word16_bind ?_)
  refine Takes.check_bind hrow.name (Takes.word16_bind (Takes.check_bind hrow.descriptor ?_))
  have hrows : List.Forall₂ (fun (b : Body) (c : Body) => ∀ z,
      attributeBytes code (codeBytes b) = .ok z → Takes (do
        let a ← Attribute.reading pool
        check (Layout.attributeCalls a)) z fun calls =>
          ∃ start, calls = callsOf start 0 (forms c.code)) body.toList body.toList := by
    refine List.forall₂_same.2 fun b hb z hz => ?_
    rw [Option.mem_toList] at hb
    obtain ⟨hb₁, hb₂⟩ := hcode b hb
    exact Attribute.takes_attribute (hname b hb) hz fun a ha =>
      attributeCalls_of_holds hb₁ hb₂ (attributeBytes_ok hz).1 ha
  refine (takes_table hy hrows).bind fun calls hcalls => takes_pure ⟨rfl, ?_⟩
  cases body with
  | none =>
      cases hcalls
      exact ⟨0, rfl⟩
  | some b =>
      obtain ⟨_, _, ⟨start, rfl⟩, hnil, rfl⟩ := List.forall₂_cons_left_iff.1 hcalls
      cases hnil
      exact ⟨start, by simp⟩

theorem takes_innerClass {row : InnerClassRow} {record : InnerClass} (hrow : row.Says pool record)
    (h : innerClassBytes row = .ok x) :
    Takes (Layout.innerClassReading pool) x fun p => p.value = record := by
  cases h
  rw [List.append_assoc, List.append_assoc, ← List.append_nil (BigEndian.bytes16 row.access)]
  refine Takes.word16_bind (Takes.check_bind hrow.name ?_)
  refine Takes.word16_bind (Takes.check_bind hrow.outerName ?_)
  refine Takes.word16_bind (Takes.check_bind hrow.innerName ?_)
  refine Takes.offset_bind fun o => Takes.word16_bind (takes_pure ?_)
  rw [hrow.access]

theorem takes_index (index : UInt16) :
    Takes Layout.indexReading (BigEndian.bytes16 index) fun p => p.value = index :=
  Takes.offset_bind fun _ => (takes_word16 index).map _ fun _ h => h

theorem takes_bootstrap {row : BootstrapRow} (h : bootstrapBytes row = .ok x) :
    Takes Layout.bootstrapReading x (BootstrapEntry.Of · row) := by
  obtain ⟨y, hy, h⟩ := exists_of_bind_ok h
  cases h
  have hrows : List.Forall₂ (fun i j => ∀ z, indexBytes i = .ok z →
      Takes Layout.indexReading z fun p => p.value = j) row.arguments row.arguments := by
    refine List.forall₂_same.2 fun i _ z hz => ?_
    cases hz
    exact takes_index i
  refine (takes_index row.handle).bind fun handle hhandle => ?_
  exact (takes_table hy hrows).map _ fun arguments harguments => ⟨hhandle, harguments⟩

/-! ## 3. The parts of a class -/

/-- What stands in front of the fields. -/
theorem takes_header (version : Version) {superName : Option String} {t : Tables} {d : Declared}
    (ht : Tabled access name superName pool t d)
    (h : table indexBytes t.interfaces.toList = .ok x) :
    Takes (Layout.headerReading version pool) (BigEndian.bytes16 t.access ++
      (BigEndian.bytes16 t.thisClass ++ (BigEndian.bytes16 t.superClass ++ x))) fun p =>
        p.value = { version, access, name, superName, interfaces := d.interfaces } := by
  have hrows : List.Forall₂ (fun i n => ∀ z, indexBytes i = .ok z →
      Takes (do check (pool.className (← word16))) z fun m => m = n)
        t.interfaces.toList d.interfaces := by
    refine ht.interfaces.imp fun i n hn z hz => ?_
    cases hz
    rw [← List.append_nil (BigEndian.bytes16 i)]
    exact Takes.word16_bind (takes_check hn rfl)
  rw [ht.access]
  refine Takes.offset_bind fun o => Takes.word16_bind (Takes.word16_bind ?_)
  refine Takes.check_bind ht.thisClass (Takes.word16_bind (Takes.check_bind ht.superClass ?_))
  refine (takes_table h hrows).map _ fun names hnames => ?_
  rw [← map_eq_of_forall₂ (f := id) hnames, List.map_id]

/-! ### The attributes of a class -/

/-- What an attribute of a class is read as: records of inner classes and rows of bootstrap
    methods. -/
structure TablesOf (records : List InnerClass) (rows : List BootstrapRow)
    (t : List (Placed InnerClass) × List BootstrapEntry) : Prop where
  innerClasses : List.Forall₂ (fun r p => Placed.value p = r) records t.1
  bootstraps : List.Forall₂ (fun row e => BootstrapEntry.Of e row) rows t.2

/-- A table that is written if it has rows. -/
def optionalTable {α : Type} (name : UInt16) (row : α → Except Fault Bytes) (rows : Array α) :
    Except Fault (List Bytes) :=
  if rows.isEmpty then pure []
  else do
    let held ← table row rows.toList
    pure [← attributeBytes name held]

theorem attributesBytes_eq (names : AttributeNames) (t : Tables) : attributesBytes names t = (do
    let innerClasses ← optionalTable names.innerClasses innerClassBytes t.innerClasses
    let bootstraps ← optionalTable names.bootstrapMethods bootstrapBytes t.bootstraps
    table .ok (innerClasses ++ bootstraps)) := by
  unfold attributesBytes optionalTable
  cases t.innerClasses.isEmpty <;> cases t.bootstraps.isEmpty <;>
    simp only [if_true, Bool.false_eq_true, if_false, bind_assoc, pure_bind]

theorem optionalTable_ok {α : Type} {index : UInt16} {row : α → Except Fault Bytes}
    {rows : Array α} {xs : List Bytes} (h : optionalTable index row rows = .ok xs) :
    rows.toList = [] ∧ xs = [] ∨ rows.isEmpty = false ∧
      ∃ held y, table row rows.toList = .ok held ∧ attributeBytes index held = .ok y ∧
        xs = [y] := by
  unfold optionalTable at h
  split at h
  · rename_i hempty
    cases h
    exact .inl ⟨by simpa using hempty, rfl⟩
  · rename_i hempty
    obtain ⟨held, hheld, h⟩ := exists_of_bind_ok h
    obtain ⟨y, hy, h⟩ := exists_of_bind_ok h
    cases h
    exact .inr ⟨by simpa using hempty, held, y, hheld, hy, rfl⟩

/-- What the attributes hold together is what they hold one after the other. -/
theorem tablesOf_flatMap {ws : List (List InnerClass × List BootstrapRow)}
    {ts : List (List (Placed InnerClass) × List BootstrapEntry)}
    (h : List.Forall₂ (fun w t => TablesOf w.1 w.2 t) ws ts) :
    TablesOf (ws.flatMap Prod.fst) (ws.flatMap Prod.snd)
      (ts.flatMap Prod.fst, ts.flatMap Prod.snd) := by
  induction h with
  | nil => exact ⟨.nil, .nil⟩
  | cons hw _ ih =>
      simp only [List.flatMap_cons]
      exact ⟨List.rel_append hw.innerClasses ih.innerClasses,
        List.rel_append hw.bootstraps ih.bootstraps⟩

/-- What a list of attributes is read as, attribute by attribute. -/
def ReadAs (pool : ConstantPool) (xs : List Bytes)
    (ws : List (List InnerClass × List BootstrapRow)) : Prop :=
  List.Forall₂ (fun x w => ∀ y, Except.ok x = (.ok y : Except Fault Bytes) → Takes (do
    let a ← Attribute.reading pool
    check (Layout.attributeTables pool a)) y (TablesOf w.1 w.2)) xs ws

theorem readAs_innerClasses {index : UInt16} {superName : Option String} {t : Tables}
    {d : Declared} (ht : Tabled access name superName pool t d)
    (hname : t.innerClasses.isEmpty = false → pool.text index = .ok Attribute.innerClasses)
    {xs : List Bytes} (h : optionalTable index innerClassBytes t.innerClasses = .ok xs) :
    ∃ ws, ReadAs pool xs ws ∧ ws.flatMap Prod.fst = d.innerClasses ∧
      ws.flatMap Prod.snd = [] := by
  rcases optionalTable_ok h with ⟨hempty, rfl⟩ | ⟨hrows, held, y, hheld, hy, rfl⟩
  · have hnone := ht.innerClasses
    rw [hempty, List.forall₂_nil_left_iff] at hnone
    exact ⟨[], .nil, hnone.symm, rfl⟩
  · refine ⟨[(d.innerClasses, [])], .cons (fun z hz => ?_) .nil, List.append_nil _, rfl⟩
    cases hz
    have htable := takes_table hheld (ht.innerClasses.imp fun _ _ hr _ hx => takes_innerClass hr hx)
    refine Attribute.takes_attribute (hname hrows) hy fun a ha => ?_
    rw [← List.append_nil held] at ha
    obtain ⟨v, hv, hq⟩ := ha.read htable
    refine ⟨(v, []), ?_, hq, .nil⟩
    simp only [Layout.attributeTables, ha.name, if_true, hv]
    rfl

theorem readAs_bootstraps {index : UInt16} {rows : Array BootstrapRow}
    (hname : rows.isEmpty = false → pool.text index = .ok Attribute.bootstrapMethods)
    {xs : List Bytes} (h : optionalTable index bootstrapBytes rows = .ok xs) :
    ∃ ws, ReadAs pool xs ws ∧ ws.flatMap Prod.fst = [] ∧ ws.flatMap Prod.snd = rows.toList := by
  rcases optionalTable_ok h with ⟨hempty, rfl⟩ | ⟨hrows, held, y, hheld, hy, rfl⟩
  · exact ⟨[], .nil, rfl, hempty.symm⟩
  · refine ⟨[([], rows.toList)], .cons (fun z hz => ?_) .nil, rfl, List.append_nil _⟩
    cases hz
    have htable := takes_table hheld (List.forall₂_same.2 fun row _ _ hx =>
      takes_bootstrap hx)
    refine Attribute.takes_attribute (hname hrows) hy fun a ha => ?_
    rw [← List.append_nil held] at ha
    obtain ⟨v, hv, hq⟩ := ha.read htable
    have hne : Attribute.bootstrapMethods ≠ Attribute.innerClasses := by decide
    refine ⟨([], v), ?_, .nil, hq⟩
    simp only [Layout.attributeTables, ha.name, hne, if_true, if_false, hv]
    rfl

/-- The numbers of the names of the attributes lead to their names, where they are needed. -/
structure AttributeNames.Lead (names : AttributeNames) (pool : ConstantPool) (t : Tables) :
    Prop where
  code : t.methods.any (·.body.isSome) = true → pool.text names.code = .ok Attribute.code
  innerClasses : t.innerClasses.isEmpty = false →
    pool.text names.innerClasses = .ok Attribute.innerClasses
  bootstrapMethods : t.bootstraps.isEmpty = false →
    pool.text names.bootstrapMethods = .ok Attribute.bootstrapMethods

variable {superName : Option String} {t : Tables} {d : Declared} {names : AttributeNames}

/-- **The attributes of a class hold the records and the rows that were declared.** -/
theorem takes_tables (ht : Tabled access name superName pool t d) (hnames : names.Lead pool t)
    (h : attributesBytes names t = .ok x) :
    Takes (counted do
      let a ← Attribute.reading pool
      check (Layout.attributeTables pool a)) x fun ts =>
        TablesOf d.innerClasses d.bootstraps (ts.flatMap Prod.fst, ts.flatMap Prod.snd) := by
  rw [attributesBytes_eq] at h
  obtain ⟨xs, hxs, h⟩ := exists_of_bind_ok h
  obtain ⟨ys, hys, h⟩ := exists_of_bind_ok h
  obtain ⟨ws, hws, hw₁, hw₂⟩ := readAs_innerClasses ht hnames.innerClasses hxs
  obtain ⟨vs, hvs, hv₁, hv₂⟩ := readAs_bootstraps hnames.bootstrapMethods hys
  refine (takes_table h (List.rel_append hws hvs)).mono fun ts hts => ?_
  have := tablesOf_flatMap hts
  rwa [List.flatMap_append, List.flatMap_append, hw₁, hw₂, hv₁, hv₂, List.append_nil,
    List.nil_append, ht.bootstraps] at this

/-- What the parts of a class say that was declared. -/
structure PartsOf (access : AccessFlags) (name : String) (superName : Option String) (d : Declared)
    (forms : Bytes → List Form) (p : Parts) : Prop where
  header : p.header.value =
    { version := d.version, access, name, superName, interfaces := d.interfaces }
  fields : p.fields.map Placed.value = d.fields
  methods : List.Forall₂ (fun m q => q.1.value = m.1 ∧
    ∃ start, q.2 = m.2.toList.flatMap fun b => callsOf start 0 (forms b.code)) d.methods p.methods
  tables : TablesOf d.innerClasses d.bootstraps
    (p.tables.flatMap Prod.fst, p.tables.flatMap Prod.snd)

/-- **What stands behind the pool is read as what was declared.** -/
theorem takes_parts (ht : Tabled access name superName pool t d) (hnames : names.Lead pool t)
    {forms : Bytes → List Form} (hforms : ∀ m ∈ d.methods, ∀ b ∈ m.2,
      codeOf (forms b.code) = b.code ∧ Assembled 0 (forms b.code))
    (h : tablesBytes names t = .ok x) :
    Takes (Parts.reading t.version pool) x (PartsOf access name superName d forms) := by
  obtain ⟨interfaces, hinterfaces, h⟩ := exists_of_bind_ok h
  obtain ⟨fields, hfields, h⟩ := exists_of_bind_ok h
  obtain ⟨methods, hmethods, h⟩ := exists_of_bind_ok h
  obtain ⟨attributes, hattributes, h⟩ := exists_of_bind_ok h
  cases h
  have hbody : ∀ row ∈ t.methods.toList, ∀ b ∈ row.body,
      pool.text names.code = .ok Attribute.code := by
    intro row hrow b hb
    refine hnames.code (Array.any_eq_true'.2 ⟨row, Array.mem_toList_iff.1 hrow, ?_⟩)
    rw [Option.mem_def.1 hb]
    rfl
  have hheader := takes_header t.version ht hinterfaces
  have hfields := takes_table hfields (ht.fields.imp fun _ _ hr _ hx => takes_field hr hx)
  have hmethods := takes_table hmethods ((forall₂_mem ht.methods).imp
    fun row m ⟨hrow, hm, hr⟩ _ hx =>
      takes_method hr (fun b hb => hbody row hrow b (hr.body ▸ hb)) (hforms m hm) hx)
  have htables := takes_tables ht hnames hattributes
  have hx : BigEndian.bytes16 t.access ++ BigEndian.bytes16 t.thisClass ++
      BigEndian.bytes16 t.superClass ++ interfaces ++ fields ++ methods ++ attributes =
      (BigEndian.bytes16 t.access ++ (BigEndian.bytes16 t.thisClass ++
        (BigEndian.bytes16 t.superClass ++ interfaces))) ++
          (fields ++ (methods ++ attributes)) := by
    simp only [List.append_assoc]
  rw [hx]
  refine hheader.bind fun header hheader => hfields.bind fun fields hfields =>
    hmethods.bind fun methods hmethods => htables.map _ fun tables htables => ?_
  refine ⟨?_, ?_, hmethods, htables⟩
  · rw [hheader, ht.version]
  · exact map_eq_of_forall₂ hfields

end Assembly

end ClassAccess
