import ClassAccess.Proofs.ClassFile.Disassembly
import ClassAccess.Proofs.ClassFile.Rereading
import ClassAccess.Proofs.Reading.Finding

/-!
# Where a class file can be changed

The layout of a class file keeps the places that a revision may write to. What stands there, and
what these places have to do with each other, follows from how the file is built.

* `Attribute.At`, `DeclaredAt`, `CallsIn`, `TablesIn` -- attributes, declarations, code and tables
  as they stand in a file; **code and tables end within their attribute**;
* `Parts.At`, `Parts.finds` -- **what is read is what stands there**, part by part;
* `Code.laid_calls` -- the calls of code stand in it, one behind the other;
* `Parts.At.laid` -- the places of all parts stand in order;
* `Layout.marks`, `Layout.recorded_of_ofBytes` -- **the places of a class file are sound**.
-/

namespace ClassAccess

open Outcome

/-! ## 1. Places -/

/-- The place of a declaration: its access flags. -/
def Placed.mark {α : Type} [Declaration α] (p : Placed α) : Mark :=
  ⟨p.offset, BigEndian.bytes16 (Declaration.access p.value)⟩

/-- The place of the number of a constant. -/
def Placed.indexMark (p : Placed UInt16) : Mark := ⟨p.offset, BigEndian.bytes16 p.value⟩

/-- The places of a row of the table of bootstrap methods. -/
def BootstrapEntry.marks (e : BootstrapEntry) : List Mark := e.places.map Placed.indexMark

/-- The place of a call, its opcode and the number of its constant. A revision writes at most to the
    opcode. -/
def Code.CallBytes.mark (c : Code.CallBytes) : Mark :=
  ⟨c.offset, c.opcode :: BigEndian.bytes16 c.index⟩

/-! ## 2. What stands in a file -/

section Format

variable {β : Type} {data : Bytes} {pool : ConstantPool} {o o' : Nat}

/-- An attribute stands in a file: the number of its name, the length of its body, and the body. -/
structure Attribute.At (data : Bytes) (pool : ConstantPool) (o : Nat) (a : Attribute) (o' : Nat) :
    Prop where
  named : ∃ index, pool.text index = .ok a.name ∧ Stands data o (BigEndian.bytes16 index)
  length_lt : a.length < 0x100000000
  measured : Stands data (o + 2) (BigEndian.bytes32 a.length.toUInt32)
  body : a.body = .from data (o + 6)
  finish : o' = a.finish
  within : a.finish ≤ data.length

/-- An attribute stands in a file, and in it what `Q` says. -/
def Attribute.Holding (data : Bytes) (pool : ConstantPool) (Q : Attribute → β → Prop) (o : Nat)
    (b : β) (o' : Nat) : Prop := ∃ a, Attribute.At data pool o a o' ∧ Q a b

/-- The number of a constant stands in a file. -/
structure IndexAt (data : Bytes) (o : Nat) (p : Placed UInt16) (o' : Nat) : Prop where
  offset : p.offset = o
  value : Stands data o (BigEndian.bytes16 p.value)
  finish : o' = o + 2

/-- A field or method stands in a file: its access flags, its names, and behind their number its
    attributes, in which something is found. -/
structure DeclaredAt {α : Type} [Declaration α] (data : Bytes) (pool : ConstantPool)
    (Q : Attribute → β → Prop) (o : Nat) (p : Placed α) (found : List β) (o' : Nat) : Prop where
  offset : p.offset = o
  access : Stands data o (BigEndian.bytes16 (Declaration.access p.value))
  attributes : CountedRows data (Attribute.Holding data pool Q) (o + 6) found o'

/-- The calls in an attribute of a method. Code stands in the body of its attribute, and its calls
    in the code. -/
inductive CallsIn (data : Bytes) (a : Attribute) : List Code.CallBytes → Prop
  | code {code : Bytes} {calls : List Code.CallBytes} (holds : Instruction.HoldsCode a code)
    (found : Code.calls (a.body.offset + 8) code = .ok calls)
    (laid : Laid data (a.body.offset + 8) (a.body.offset + 8 + code.length)
      (calls.map Code.CallBytes.mark)) : CallsIn data a calls
  | other (name : a.name ≠ Attribute.code) : CallsIn data a []

/-- A field stands in a file, with whatever attributes. -/
def FieldAt (data : Bytes) (pool : ConstantPool) (o : Nat) (p : Placed FieldDeclaration)
    (o' : Nat) : Prop :=
  ∃ found : List Unit, DeclaredAt data pool (fun _ _ => True) o p found o'

/-- A method stands in a file. -/
def MethodAt (data : Bytes) (pool : ConstantPool) (o : Nat)
    (m : Placed MethodDeclaration × List Code.CallBytes) (o' : Nat) : Prop :=
  ∃ found, DeclaredAt data pool (CallsIn data) o m.1 found o' ∧ m.2 = found.flatten

/-- The record of an inner class stands in a file: three names and the access flags. -/
structure RecordAt (data : Bytes) (o : Nat) (p : Placed InnerClass) (o' : Nat) : Prop where
  offset : p.offset = o + 6
  access : Stands data (o + 6) (BigEndian.bytes16 p.value.access)
  finish : o' = o + 8

/-- A row of the table of bootstrap methods stands in a file. -/
structure RowAt (data : Bytes) (o : Nat) (e : BootstrapEntry) (o' : Nat) : Prop where
  handle : IndexAt data o e.handle (o + 2)
  arguments : CountedRows data (IndexAt data) (o + 2) e.arguments o'

/-- The tables in an attribute of the class. They end where the body ends, or before. -/
inductive TablesIn (data : Bytes) (a : Attribute) :
    List (Placed InnerClass) × List BootstrapEntry → Prop
  | innerClasses {records : List (Placed InnerClass)} {p : Nat}
    (name : a.name = Attribute.innerClasses)
    (rows : CountedRows data (RecordAt data) a.body.offset records p) (within : p ≤ a.finish) :
    TablesIn data a (records, [])
  | bootstrapMethods {entries : List BootstrapEntry} {p : Nat}
    (name : a.name = Attribute.bootstrapMethods)
    (rows : CountedRows data (RowAt data) a.body.offset entries p) (within : p ≤ a.finish) :
    TablesIn data a ([], entries)
  | other (hrecords : a.name ≠ Attribute.innerClasses)
    (hrows : a.name ≠ Attribute.bootstrapMethods) : TablesIn data a ([], [])

/-- The parts of a class stand in a file, one behind the other. -/
inductive Parts.At (data : Bytes) (pool : ConstantPool) (o : Nat) (parts : Parts) (o' : Nat) : Prop
  | intro {o₁ o₂ o₃ : Nat} (offset : parts.header.offset = o)
    (access : Stands data o (BigEndian.bytes16 parts.header.value.access)) (names : o + 2 ≤ o₁)
    (fields : CountedRows data (FieldAt data pool) o₁ parts.fields o₂)
    (methods : CountedRows data (MethodAt data pool) o₂ parts.methods o₃)
    (tables : CountedRows data (Attribute.Holding data pool (TablesIn data)) o₃ parts.tables o')

end Format

/-! ## 3. Calls in code -/

namespace Code

variable {data : Bytes}

/-- The call that an instruction is stands where the instruction does. -/
theorem laid_callAt? {pc o n : Nat} {op : UInt8} {rest : Bytes}
    (hn : Instruction.lengthAt pc (op :: rest) = .ok n) (hcode : Stands data o (op :: rest)) :
    Laid data o (o + n) ((callAt? o (op :: rest)).toList.map CallBytes.mark) := by
  cases hc : isCall op with
  | false =>
      rw [callAt?_of_not_isCall hc]
      exact Nat.le_add_right o n
  | true =>
      obtain ⟨a, b, y, rfl⟩ := exists_of_isCall hc hn
      rw [callAt?_of_isCall hc]
      refine Laid.singleton (Nat.le_refl o) ?_ ?_
      · have hmark : (CallBytes.mark ⟨o, op, BigEndian.word16 a b⟩).bytes = [op, a, b] := by
          rw [CallBytes.mark, BigEndian.bytes16_word16]
        rw [hmark]
        exact Stands.left (y := y) hcode
      · exact Nat.add_le_add_left (Instruction.length_of_call hc hn) o

/-- The calls that are still to come stand in the code that is still to come. -/
theorem laid_callsFrom {start pc : Nat} {acc found : List CallBytes} {code : Bytes}
    (h : callsFrom start pc acc code = .ok found) (hcode : Stands data (start + pc) code) :
    ∃ new : List CallBytes, found = new.reverse ++ acc ∧
      Laid data (start + pc) (start + pc + code.length) (new.map CallBytes.mark) := by
  fun_induction callsFrom start pc acc code with
  | case1 pc acc =>
      cases h
      exact ⟨[], rfl, Nat.le_refl _⟩
  | case2 pc acc op rest fault hn => cases h
  | case3 pc acc op rest n hn ih =>
      have hpos := Instruction.lengthAt_pos hn
      have hle := (Instruction.lengthAt_ok.1 hn).2
      simp only [List.length_cons] at hle
      have hwidth : (op :: rest.take (n - 1)).length = n := by
        rw [List.length_cons, List.length_take]
        omega
      have hfin : start + (pc + n) + (rest.drop (n - 1)).length =
          start + pc + (op :: rest).length := by
        rw [List.length_drop, List.length_cons]
        omega
      have hsplit : op :: rest = (op :: rest.take (n - 1)) ++ rest.drop (n - 1) := by
        rw [List.cons_append, List.take_append_drop]
      have hrest : Stands data (start + (pc + n)) (rest.drop (n - 1)) := by
        have hright := (hsplit ▸ hcode).right
        rwa [hwidth, Nat.add_assoc] at hright
      obtain ⟨new, rfl, hnew⟩ := ih h hrest
      rw [hfin] at hnew
      refine ⟨(callAt? (start + pc) (op :: rest)).toList ++ new, ?_, ?_⟩
      · rw [List.reverse_append, List.append_assoc]
        cases callAt? (start + pc) (op :: rest) <;> rfl
      · rw [List.map_append]
        exact Laid.append (Nat.add_assoc start pc n ▸ laid_callAt? hn hcode) hnew

/-- **The calls of code stand in it**, one behind the other. -/
theorem laid_calls {start : Nat} {found : List CallBytes} {code : Bytes}
    (h : calls start code = .ok found) (hcode : Stands data start code) :
    Laid data start (start + code.length) (found.map CallBytes.mark) := by
  unfold calls at h
  split at h
  · rename_i new hnew
    cases h
    obtain ⟨found, rfl, hlaid⟩ := laid_callsFrom hnew hcode
    rwa [List.append_nil, List.reverse_reverse]
  · cases h

end Code

/-! ## 4. Reading what stands there -/

section Finds

open Reading

variable {α β : Type} {data : Bytes} {pool : ConstantPool} {o o' : Nat}

namespace Attribute

theorem finds_reading (o : Nat) :
    Finds data o (Attribute.reading pool) fun a o' => At data pool o a o' := by
  refine finds_word16.bind fun index m hindex => ?_
  obtain ⟨hindex, rfl⟩ := hindex
  refine (finds_check _).bind fun name m hname => ?_
  obtain ⟨hname, rfl⟩ := hname
  refine finds_word32.bind fun length m hlength => ?_
  obtain ⟨hlength, rfl⟩ := hlength
  refine finds_source.bind fun body m hbody => ?_
  obtain ⟨rfl, rfl⟩ := hbody
  refine (finds_bytes _).bind fun block m hblock => ?_
  obtain ⟨-, -, rfl⟩ := hblock
  have hself : length.toNat.toUInt32 = length := UInt32.ofNat_toNat
  exact finds_pure fun hle => ⟨⟨index, hname, hindex⟩, length.toNat_lt, hself.symm ▸ hlength, rfl,
    rfl, hle⟩

theorem finds_holding {f : Attribute → Except Fault β} {Q : Attribute → β → Prop}
    (hf : ∀ a b o o', At data pool o a o' → f a = .ok b → Q a b) (o : Nat) :
    Finds data o (do let a ← Attribute.reading pool; Reading.check (f a))
      (Holding data pool Q o) := by
  refine (finds_reading o).bind fun a m ha => (finds_check (f a)).mono fun b m hb => ?_
  obtain ⟨hb, rfl⟩ := hb
  exact ⟨a, ha, hf a b o _ ha hb⟩

/-- **What is found in the body of an attribute ends within it.** -/
theorem At.contents {a : Attribute} (ha : At data pool o a o') {r : Reading α}
    {q : α → Nat → Prop} (hr : Finds data a.body.offset r q) {b : α} (h : a.contents r = .ok b) :
    ∃ p, p ≤ a.finish ∧ q b p := by
  have hbody : a.body = .from data a.body.offset := by
    rw [ha.body]
    rfl
  have hle : a.body.offset ≤ data.length := Nat.le_trans (Nat.le_add_right _ _) ha.within
  unfold Attribute.contents at h
  split at h
  · cases h
  · rename_i value t ht
    rw [hbody] at ht
    obtain ⟨p, rfl, -, -, hq⟩ := hr hle value t ht
    split at h
    · cases h
    · rename_i hfinish
      cases h
      exact ⟨p, Nat.not_lt.1 hfinish, hq⟩

end Attribute

namespace Layout

theorem finds_index (o : Nat) : Finds data o indexReading (IndexAt data o) := by
  refine finds_offset.bind fun p m hp => ?_
  obtain ⟨rfl, rfl⟩ := hp
  refine finds_word16.bind fun w m hw => ?_
  obtain ⟨hw, rfl⟩ := hw
  exact finds_pure fun _ => ⟨rfl, hw, rfl⟩

/-- What is looked up by its number, of whatever kind, and what is read behind it. -/
theorem finds_lookup_bind {look : UInt16 → Except Fault α} {f : α → Reading β}
    {q : β → Nat → Prop} (hf : ∀ a, Finds data (o + 2) (f a) q) :
    Finds data o (do let a ← Reading.check (look (← word16)); f a) q := by
  refine finds_word16.bind fun w m hw => ?_
  obtain ⟨-, rfl⟩ := hw
  refine (finds_check _).bind fun a m ha => ?_
  obtain ⟨-, rfl⟩ := ha
  exact hf a

theorem finds_headerNames (o : Nat) : Finds data o (headerNames pool) fun _ _ => True := by
  have hinterface (o : Nat) : Finds data o
      (do Reading.check (pool.className (← Reading.word16))) fun _ _ => True :=
    finds_word16.bind fun w m _ => (finds_check _).mono fun _ _ _ => trivial
  exact finds_lookup_bind fun _ => finds_lookup_bind fun _ =>
    (finds_counted hinterface _).bind fun _ _ _ => finds_pure fun _ => trivial

theorem finds_memberNames (o : Nat) : Finds data o (memberNames pool) fun _ o' => o' = o + 4 :=
  finds_lookup_bind fun _ => finds_lookup_bind fun _ => finds_pure fun _ => rfl

theorem finds_innerClassNames (o : Nat) :
    Finds data o (innerClassNames pool) fun _ o' => o' = o + 6 :=
  finds_lookup_bind fun _ => finds_lookup_bind fun _ => finds_lookup_bind fun _ =>
    finds_pure fun _ => rfl

theorem finds_header (version : Version) (o : Nat) :
    Finds data o (headerReading version pool) fun h o' => h.offset = o
      ∧ Stands data o (BigEndian.bytes16 h.value.access) ∧ o + 2 ≤ o' := by
  rw [headerReading_eq]
  refine (finds_index o).bind fun p m hp => ?_
  obtain ⟨hoffset, hvalue, rfl⟩ := hp
  refine (finds_headerNames (o + 2)).and_le.bind fun x o' hle => finds_pure fun _ => ?_
  exact ⟨hoffset, hvalue, hle.2⟩

theorem finds_field (o : Nat) : Finds data o (fieldReading pool) (FieldAt data pool o) := by
  rw [fieldReading_eq]
  refine (finds_index o).bind fun p m hp => ?_
  obtain ⟨hoffset, hvalue, rfl⟩ := hp
  refine Finds.bind (p := fun _ o' => ∃ found : List Unit,
    CountedRows data (Attribute.Holding data pool fun _ _ => True) (o + 6) found o') ?_ ?_
  · refine (finds_memberNames _).bind fun x m hx => ?_
    obtain rfl := hx
    exact (finds_counted (Attribute.finds_holding (f := fun _ => .ok ())
      fun _ _ _ _ _ _ => trivial) _).bind fun found o' hfound => finds_pure fun _ => ⟨found, hfound⟩
  · intro x o' hx
    obtain ⟨found, hfound⟩ := hx
    exact finds_pure fun _ => ⟨found, hoffset, hvalue, hfound⟩

theorem finds_codeReading (o : Nat) : Finds data o codeReading fun x o' =>
    x.1 = o + 8 ∧ x.2.length < 0x100000000 ∧ o' = o + 8 + x.2.length ∧
      ∃ sizes : Bytes, sizes.length = 4 ∧
        Stands data o (sizes ++ BigEndian.bytes32 x.2.length.toUInt32 ++ x.2) := by
  refine (finds_bytes 4).bind fun sizes m hsizes => ?_
  obtain ⟨hsizes, hfour, rfl⟩ := hsizes
  refine finds_word32.bind fun length m hlength => ?_
  obtain ⟨hlength, rfl⟩ := hlength
  refine finds_offset.bind fun start m hstart => ?_
  obtain ⟨rfl, rfl⟩ := hstart
  refine (finds_bytes _).bind fun code m hcode => ?_
  obtain ⟨hcode, hwidth, rfl⟩ := hcode
  have hself : code.length.toUInt32 = length := by rw [hwidth]; exact UInt32.ofNat_toNat
  refine finds_pure fun _ => ⟨rfl, hwidth ▸ length.toNat_lt, by rw [hwidth], sizes, hfour, ?_⟩
  refine (hsizes.append ?_).append ?_
  · rwa [hfour, hself]
  · rwa [List.length_append, hfour]

/-- **The code in an attribute ends within it.** -/
theorem callsIn_of_attributeCalls {a : Attribute} {calls : List Code.CallBytes}
    (ha : Attribute.At data pool o a o') (h : attributeCalls a = .ok calls) :
    CallsIn data a calls := by
  by_cases hname : a.name = Attribute.code
  · rw [attributeCalls, if_pos hname] at h
    split at h
    · rename_i start code hcode
      obtain ⟨p, hp, rfl, hlt, rfl, sizes, hfour, hstands⟩ :=
        ha.contents (finds_codeReading _) hcode
      have hstart : Stands data (a.body.offset + 8) code := by
        have hright := hstands.right
        rwa [List.length_append, hfour] at hright
      refine .code ⟨hname, hlt, ?_, ?_⟩ h (Code.laid_calls h hstart)
      · obtain ⟨rest, hrest⟩ := hstands
        refine ⟨sizes, rest, hfour, ?_⟩
        rw [hrest, ha.body]
        rfl
      · have hwithin : a.body.offset + 8 + code.length ≤ a.body.offset + a.length := hp
        show 8 + code.length ≤ a.length
        omega
    · cases h
  · rw [attributeCalls, if_neg hname] at h
    cases h
    exact .other hname

theorem finds_method (o : Nat) : Finds data o (methodReading pool) (MethodAt data pool o) := by
  rw [methodReading_eq]
  refine (finds_index o).bind fun p m hp => ?_
  obtain ⟨hoffset, hvalue, rfl⟩ := hp
  refine Finds.bind (p := fun x o' =>
    CountedRows data (Attribute.Holding data pool (CallsIn data)) (o + 6) x.2 o') ?_ ?_
  · refine (finds_memberNames _).bind fun x m hx => ?_
    obtain rfl := hx
    exact (finds_counted (Attribute.finds_holding
      fun _ _ _ _ => callsIn_of_attributeCalls) _).bind fun found o' hfound =>
        finds_pure fun _ => hfound
  · exact fun x o' hfound => finds_pure fun _ => ⟨x.2, ⟨hoffset, hvalue, hfound⟩, rfl⟩

theorem finds_innerClass (o : Nat) : Finds data o (innerClassReading pool) (RecordAt data o) := by
  rw [innerClassReading_eq]
  refine (finds_innerClassNames o).bind fun x m hx => ?_
  obtain rfl := hx
  refine (finds_index _).bind fun p m hp => ?_
  obtain ⟨hoffset, hvalue, rfl⟩ := hp
  exact finds_pure fun _ => ⟨hoffset, hvalue, rfl⟩

theorem finds_bootstrap (o : Nat) : Finds data o bootstrapReading (RowAt data o) := by
  refine (finds_index o).bind fun handle m hhandle => ?_
  obtain rfl := hhandle.finish
  exact (finds_counted finds_index _).bind fun arguments o' harguments =>
    finds_pure fun _ => ⟨hhandle, harguments⟩

/-- **The tables in an attribute end within it.** -/
theorem tablesIn_of_attributeTables {a : Attribute}
    {t : List (Placed InnerClass) × List BootstrapEntry} (ha : Attribute.At data pool o a o')
    (h : attributeTables pool a = .ok t) : TablesIn data a t := by
  unfold attributeTables at h
  split at h
  · rename_i hname
    obtain ⟨records, hrecords, rfl⟩ := exists_of_map_ok h
    obtain ⟨p, hp, hrows⟩ := ha.contents (finds_counted finds_innerClass _) hrecords
    exact .innerClasses hname hrows hp
  · rename_i hrecords
    split at h
    · rename_i hname
      obtain ⟨entries, hentries, rfl⟩ := exists_of_map_ok h
      obtain ⟨p, hp, hrows⟩ := ha.contents (finds_counted finds_bootstrap _) hentries
      exact .bootstrapMethods hname hrows hp
    · rename_i hrows
      cases h
      exact .other hrecords hrows

end Layout

/-- **What is read is what stands there**, part by part. -/
theorem Parts.finds (version : Version) (o : Nat) :
    Finds data o (Parts.reading version pool) (Parts.At data pool o) := by
  refine (Layout.finds_header version o).bind fun header o₁ hheader => ?_
  obtain ⟨hoffset, haccess, hnames⟩ := hheader
  refine (finds_counted Layout.finds_field o₁).bind fun fields o₂ hfields => ?_
  refine (finds_counted Layout.finds_method o₂).bind fun methods o₃ hmethods => ?_
  refine (finds_counted (Attribute.finds_holding
    fun _ _ _ _ => Layout.tablesIn_of_attributeTables) o₃).bind fun tables o' htables => ?_
  exact finds_pure fun _ => ⟨hoffset, haccess, hnames, hfields, hmethods, htables⟩

end Finds

/-! ## 5. The places of all parts -/

namespace Parts

/-- The places of a method. -/
def methodMarks (m : Placed MethodDeclaration × List Code.CallBytes) : List Mark :=
  m.1.mark :: m.2.map Code.CallBytes.mark

/-- The places of the tables in an attribute. -/
def tableMarks (t : List (Placed InnerClass) × List BootstrapEntry) : List Mark :=
  t.1.map Placed.mark ++ t.2.flatMap BootstrapEntry.marks

/-- All places, in the order in which they stand in the file. -/
def marks (p : Parts) : List Mark :=
  p.header.mark :: (p.fields.map Placed.mark ++ p.methods.flatMap methodMarks
    ++ p.tables.flatMap tableMarks)

end Parts

section Laid

variable {α β : Type} {data : Bytes} {pool : ConstantPool} {o o' : Nat}

theorem IndexAt.laid {p : Placed UInt16} (h : IndexAt data o p o') :
    Laid data o o' [p.indexMark] := by
  obtain ⟨rfl, hvalue, rfl⟩ := h
  exact Laid.singleton (Nat.le_refl _) hvalue (Nat.le_refl _)

theorem Placed.laid_mark [Declaration α] {p : Placed α} (hoffset : p.offset = o)
    (h : Stands data o (BigEndian.bytes16 (Declaration.access p.value))) :
    Laid data o (o + 2) [p.mark] := by
  subst hoffset
  exact Laid.singleton (Nat.le_refl _) h (Nat.le_refl _)

theorem RecordAt.laid {p : Placed InnerClass} (h : RecordAt data o p o') :
    Laid data o o' [p.mark] :=
  (Placed.laid_mark h.offset h.access).mono (Nat.le_add_right _ _) (Nat.le_of_eq h.finish.symm)

theorem RowAt.laid {e : BootstrapEntry} (h : RowAt data o e o') : Laid data o o' e.marks := by
  have harguments : Laid data (o + 2) o' (e.arguments.map Placed.indexMark) := by
    rw [List.map_eq_flatMap]
    exact h.arguments.laid fun _ _ _ hp => hp.laid
  exact h.handle.laid.append harguments

/-- Whatever is found in an attribute stands between its two ends. -/
theorem Attribute.Holding.laid {Q : Attribute → β → Prop} {b : β} {marks : List Mark}
    (h : Attribute.Holding data pool Q o b o')
    (hQ : ∀ a, Q a b → Attribute.At data pool o a o' → Laid data a.body.offset a.finish marks) :
    Laid data o o' marks := by
  obtain ⟨a, ha, hb⟩ := h
  refine (hQ a hb ha).mono ?_ (Nat.le_of_eq ha.finish.symm)
  rw [ha.body]
  exact Nat.le_add_right o 6

theorem CallsIn.laid {a : Attribute} {calls : List Code.CallBytes} (h : CallsIn data a calls) :
    Laid data a.body.offset a.finish (calls.map Code.CallBytes.mark) := by
  cases h with
  | code holds found laid =>
      have hwithin := holds.within
      refine laid.mono (Nat.le_add_right _ _) ?_
      unfold Attribute.finish
      omega
  | other name => exact Nat.le_add_right _ _

theorem TablesIn.laid {a : Attribute} {t : List (Placed InnerClass) × List BootstrapEntry}
    (h : TablesIn data a t) : Laid data a.body.offset a.finish (Parts.tableMarks t) := by
  cases h with
  | innerClasses name rows within =>
      rw [Parts.tableMarks, List.flatMap_nil, List.append_nil, List.map_eq_flatMap]
      exact (rows.laid fun _ _ _ hp => hp.laid).mono (Nat.le_refl _) within
  | bootstrapMethods name rows within =>
      exact (rows.laid fun _ _ _ he => he.laid).mono (Nat.le_refl _) within
  | other hrecords hrows => exact Nat.le_add_right _ _

/-- What is found in the attributes of a declaration stands behind its access flags. -/
theorem DeclaredAt.laid [Declaration α] {Q : Attribute → β → Prop} {p : Placed α}
    {found : List β} (h : DeclaredAt data pool Q o p found o') {f : β → List Mark}
    (hf : ∀ o b o', Attribute.Holding data pool Q o b o' → Laid data o o' (f b)) :
    Laid data o o' (p.mark :: found.flatMap f) :=
  (Placed.laid_mark h.offset h.access).append
    ((h.attributes.laid hf).mono (Nat.add_le_add_left (by decide) o) (Nat.le_refl _))

theorem FieldAt.laid {p : Placed FieldDeclaration} (h : FieldAt data pool o p o') :
    Laid data o o' [p.mark] := by
  obtain ⟨found, hfound⟩ := h
  have hlaid := hfound.laid (f := fun _ => []) fun _ _ _ hb =>
    hb.laid fun a _ _ => Nat.le_add_right _ _
  have hnone : (found.flatMap fun _ => ([] : List Mark)) = [] :=
    List.flatMap_eq_nil_iff.2 fun _ _ => rfl
  rwa [hnone] at hlaid

theorem MethodAt.laid {m : Placed MethodDeclaration × List Code.CallBytes}
    (h : MethodAt data pool o m o') : Laid data o o' (Parts.methodMarks m) := by
  obtain ⟨found, hdeclared, hm⟩ := h
  rw [Parts.methodMarks, hm, List.map_flatten, ← List.flatMap_def]
  exact hdeclared.laid fun _ _ _ hcalls => hcalls.laid fun _ h _ => h.laid

/-- **The places of the parts stand in order.** -/
theorem Parts.At.laid {parts : Parts} (h : Parts.At data pool o parts o') :
    Laid data o o' parts.marks := by
  obtain ⟨hoffset, haccess, hnames, hfields, hmethods, htables⟩ := h
  have hheader := (Placed.laid_mark hoffset haccess).mono (Nat.le_refl _) hnames
  have hfields := hfields.laid fun _ _ _ hp => FieldAt.laid hp
  rw [← List.map_eq_flatMap] at hfields
  have hmethods := hmethods.laid fun _ _ _ hm => MethodAt.laid hm
  have htables := htables.laid fun _ _ _ ht => ht.laid fun _ h _ => h.laid
  exact hheader.append ((hfields.append hmethods).append htables)

end Laid

/-! ## 6. The places of a class -/

/-- The places of a spot that no other spot has. -/
def Spot.marks : Spot → List Mark
  | header p => [p.mark]
  | innerClass p => [p.mark]
  | field p => [p.mark]
  | method p => [p.mark]
  | call p => [⟨p.offset, [p.value.kind.opcode]⟩]
  | dynamicCall _ _ => []

namespace Layout

variable {data : Bytes} {l : Layout} {parts : Parts}

/-- The places of a class and what the events of the class say stands there. -/
def marks (l : Layout) : List Mark :=
  l.spots.flatMap Spot.marks ++ l.bootstraps.flatMap BootstrapEntry.marks

/-- A mark takes up the bytes of a slot. -/
def Fills (s : Slot) (m : Mark) : Prop := s.offset = m.offset ∧ s.finish = m.finish

/-- The places of a class are its slots, told with what stands there. -/
theorem fills_marks (l : Layout) : List.Forall₂ Fills l.slots l.marks := by
  have hown : ∀ spot : Spot, List.Forall₂ Fills spot.own spot.marks := fun spot => by
    cases spot with
    | dynamicCall => exact .nil
    | header | innerClass | field | method | call => exact .cons ⟨rfl, rfl⟩ .nil
  have hentry : ∀ e : BootstrapEntry, List.Forall₂ Fills e.slots e.marks := fun e => by
    rw [BootstrapEntry.slots, BootstrapEntry.marks, List.forall₂_map_left_iff,
      List.forall₂_map_right_iff, List.forall₂_same]
    exact fun p _ => ⟨rfl, rfl⟩
  have hspots : List.Forall₂ Fills (l.spots.flatMap Spot.own) (l.spots.flatMap Spot.marks) :=
    List.rel_flatMap (R := Eq) (List.forall₂_same.2 fun _ _ => rfl) fun spot _ h => h ▸ hown spot
  have hentries : List.Forall₂ Fills (l.bootstraps.flatMap BootstrapEntry.slots)
      (l.bootstraps.flatMap BootstrapEntry.marks) :=
    List.rel_flatMap (R := Eq) (List.forall₂_same.2 fun _ _ => rfl) fun e _ h => h ▸ hentry e
  exact List.rel_append hspots hentries

theorem pairwise_of_fills {slots : List Slot} {marks : List Mark}
    (h : List.Forall₂ Fills slots marks) (hapart : slots.Pairwise Slot.Apart) :
    marks.Pairwise Mark.Apart := by
  induction h with
  | nil => exact .nil
  | @cons s m slots marks hm hrest ih =>
      obtain ⟨hs, hslots⟩ := List.pairwise_cons.1 hapart
      refine .cons (fun n hn => ?_) (ih hslots)
      obtain ⟨t, ht, hfills⟩ := exists_of_forall₂_right hrest hn
      have hst := hs t ht
      rwa [Slot.Apart, hm.1, hm.2, hfills.1, hfills.2] at hst

/-- The place of a direct call is in that of the instruction that was looked up. -/
theorem mark_of_resolve {pool : ConstantPool} {bootstraps : List BootstrapEntry}
    {c : Code.CallBytes} {p : Placed Call} (h : resolve pool bootstraps c = .ok (.direct p)) :
    p.offset = c.offset ∧ p.value.kind.opcode = c.opcode := by
  by_cases hc : c.opcode = Code.dynamicOpcode
  · rw [resolve_dynamic hc, dynamicCallAt_eq_ok_iff] at h
    obtain ⟨_, _, _, _, _, _, _, _, _, hplaced⟩ := h
    cases hplaced
  · rw [resolve_direct hc, directCallAt_eq_ok_iff] at h
    obtain ⟨_, kind, _, _, _, _, hop, hplaced⟩ := h
    cases hplaced
    exact ⟨rfl, hop⟩

/-- Where one mark begins, and a mark of the parts with its bytes in front. -/
def Begins (m m' : Mark) : Prop := m.offset = m'.offset ∧ m.bytes <+: m'.bytes

theorem begins_refl (m : Mark) : Begins m m := ⟨rfl, List.prefix_rfl⟩

theorem exists_mark_of_method {pool : ConstantPool} {bootstraps : List BootstrapEntry}
    {n : Placed MethodDeclaration × List Code.CallBytes} {placed : MethodLayout}
    (h : resolveMethod pool bootstraps n = .ok placed) {spot : Spot} (hspot : spot ∈ placed.spots)
    {m : Mark} (hm : m ∈ spot.marks) : ∃ m' ∈ Parts.methodMarks n, Begins m m' := by
  obtain ⟨calls, hcalls, hplaced⟩ := exists_of_bind_ok h
  cases hplaced
  rcases List.mem_cons.1 hspot with rfl | hspot
  · obtain rfl := List.mem_singleton.1 hm
    exact ⟨_, List.mem_cons_self, begins_refl _⟩
  · obtain ⟨call, hcall, rfl⟩ := List.mem_map.1 hspot
    cases call with
    | dynamic => cases hm
    | direct p =>
        obtain rfl := List.mem_singleton.1 hm
        obtain ⟨c, hc, hp⟩ := exists_of_forall₂_right (mapM_eq_ok_iff.1 hcalls) hcall
        obtain ⟨hoffset, hop⟩ := mark_of_resolve hp
        refine ⟨c.mark, List.mem_cons_of_mem _ (List.mem_map_of_mem hc), hoffset, ?_⟩
        rw [hop]
        exact List.prefix_append [c.opcode] _

/-- **Each place of a class begins in a place of its parts.** -/
theorem exists_mark_of_parts (h : l.MadeFrom parts) {m : Mark} (hm : m ∈ l.marks) :
    ∃ m' ∈ parts.marks, Begins m m' := by
  have htable : ∀ t ∈ parts.tables, m ∈ Parts.tableMarks t → ∃ m' ∈ parts.marks, Begins m m' :=
    fun t ht hmt => ⟨m, List.mem_cons_of_mem _ (List.mem_append_right _
      (List.mem_flatMap.2 ⟨t, ht, hmt⟩)), begins_refl m⟩
  rcases List.mem_append.1 hm with hm | hm
  · obtain ⟨spot, hspot, hm⟩ := List.mem_flatMap.1 hm
    rcases List.mem_cons.1 hspot with rfl | hspot
    · obtain rfl := List.mem_singleton.1 hm
      exact ⟨_, h.header ▸ List.mem_cons_self, begins_refl _⟩
    rcases List.mem_append.1 hspot with hspot | hspot
    · rcases List.mem_append.1 hspot with hspot | hspot
      · obtain ⟨p, hp, rfl⟩ := List.mem_map.1 hspot
        obtain rfl := List.mem_singleton.1 hm
        rw [h.innerClasses] at hp
        obtain ⟨t, ht, hpt⟩ := List.mem_flatMap.1 hp
        exact htable t ht (List.mem_append_left _ (List.mem_map_of_mem hpt))
      · obtain ⟨p, hp, rfl⟩ := List.mem_map.1 hspot
        obtain rfl := List.mem_singleton.1 hm
        rw [h.fields] at hp
        exact ⟨_, List.mem_cons_of_mem _ (List.mem_append_left _
          (List.mem_append_left _ (List.mem_map_of_mem hp))), begins_refl _⟩
    · obtain ⟨placed, hplaced, hspot⟩ := List.mem_flatMap.1 hspot
      obtain ⟨n, hn, hresolve⟩ := exists_of_forall₂_right (mapM_eq_ok_iff.1 h.methods) hplaced
      obtain ⟨m', hm', hbegins⟩ := exists_mark_of_method hresolve hspot hm
      exact ⟨m', List.mem_cons_of_mem _ (List.mem_append_left _
        (List.mem_append_right _ (List.mem_flatMap.2 ⟨n, hn, hm'⟩))), hbegins⟩
  · obtain ⟨e, he, hm⟩ := List.mem_flatMap.1 hm
    rw [h.bootstraps] at he
    obtain ⟨t, ht, het⟩ := List.mem_flatMap.1 he
    exact htable t ht (List.mem_append_right _ (List.mem_flatMap.2 ⟨e, het, hm⟩))

/-- What is recorded of the places in a class file.

    * The constant pool ends where the parts begin (`front`), and the parts stand in the file one
      behind the other, **code and tables within their attributes** (`CallsIn`, `TablesIn`); so do
      the places in them, which are those of the class and the instructions of dynamic calls.
    * The places of the class are behind the constant pool and within the file, and share no byte.
    * What stands there is what the events of the class were made from. A dynamic call is made from
      the numbers in a row of the table of bootstrap methods. -/
structure Recorded (data : Bytes) (l : Layout) : Prop where
  front : ∃ version, preamble ⟨0, data⟩ = .ok ((version, l.pool, l.poolEnd), .from data l.poolEnd)
  built : ∃ parts finish, l.MadeFrom parts ∧ Parts.At data l.pool l.poolEnd parts finish
    ∧ finish ≤ data.length ∧ Laid data l.poolEnd finish parts.marks
  bounds : ∀ m ∈ l.marks, l.poolEnd ≤ m.offset ∧ m.finish ≤ data.length
  apart : l.marks.Pairwise Mark.Apart
  stands : ∀ m ∈ l.marks, Stands data m.offset m.bytes
  rows : ∀ call entry, Spot.dynamicCall call entry ∈ l.spots → entry ∈ l.bootstraps ∧
    List.Forall₂ (fun a x => argumentAt l.pool (Placed.value a) = .ok x) entry.places call.told

/-- **The places of a class file are sound.** -/
theorem recorded_of_ofBytes (h : ofBytes data = .ok l) : l.Recorded data := by
  obtain ⟨version, s, parts, t, hs, hparts, hmade, -⟩ := ofBytes_ok h
  obtain ⟨x, hdata, hoffset, hend, -⟩ := front_of_preamble hs
  have hsource : s = .from data l.poolEnd := by
    rw [Source.from, hdata, hend, List.drop_left, ← hoffset]
  have hle : l.poolEnd ≤ data.length := by
    rw [hdata, hend, List.length_append]
    exact Nat.le_add_right _ _
  rw [hsource] at hs hparts
  obtain ⟨finish, -, -, hfinish, hbuilt⟩ := Parts.finds version _ hle _ _ hparts
  have hlaid := hbuilt.laid
  have hsound := sound_of_ofBytes h
  refine ⟨⟨version, hs⟩, ⟨parts, finish, hmade, hbuilt, hfinish, hlaid⟩, fun m hm => ?_,
    pairwise_of_fills (fills_marks l) hsound.apart, fun m hm => ?_, hsound.row⟩
  · obtain ⟨m', hm', hbegins, hprefix⟩ := exists_mark_of_parts hmade hm
    obtain ⟨hlo, hhi, -⟩ := hlaid.bounds hm'
    have hlength := hprefix.length_le
    unfold Mark.finish at hhi ⊢
    omega
  · obtain ⟨m', hm', hbegins, hprefix⟩ := exists_mark_of_parts hmade hm
    rw [hbegins]
    exact hprefix.trans (hlaid.bounds hm').2.2

/-- A class with one of everything that can be changed. -/
def oneOfEach : Bytes :=
  [0xCA, 0xFE, 0xBA, 0xBE, 0, 0, 0, 61, 0, 14,
    1, 0, 1, 65, 7, 0, 1, 1, 0, 1, 109, 1, 0, 3, 40, 41, 86, 12, 0, 3, 0, 4, 10, 0, 2, 0, 5,
    15, 6, 0, 6, 15, 7, 0, 6, 18, 0, 0, 0, 5, 1, 0, 4, 67, 111, 100, 101,
    1, 0, 16, 66, 111, 111, 116, 115, 116, 114, 97, 112, 77, 101, 116, 104, 111, 100, 115,
    1, 0, 12, 73, 110, 110, 101, 114, 67, 108, 97, 115, 115, 101, 115, 1, 0, 1, 73,
    0, 33, 0, 2, 0, 0, 0, 0, 0, 1, 0, 2, 0, 3, 0, 13, 0, 0,
    0, 1, 0, 1, 0, 3, 0, 4, 0, 1, 0, 10, 0, 0, 0, 21, 0, 0, 0, 0, 0, 0, 0, 9,
    0xB7, 0, 6, 0xBA, 0, 9, 0, 0, 0xB1, 0, 0, 0, 0,
    0, 2, 0, 12, 0, 0, 0, 10, 0, 1, 0, 2, 0, 0, 0, 0, 0, 10,
    0, 11, 0, 0, 0, 8, 0, 1, 0, 7, 0, 1, 0, 8]

theorem recorded_oneOfEach : ∃ l, ofBytes oneOfEach = .ok l ∧ l.Recorded oneOfEach ∧
    l.marks = [⟨95, [0, 33]⟩, ⟨166, [0, 10]⟩, ⟨105, [0, 2]⟩, ⟨115, [0, 1]⟩, ⟨137, [0xB7]⟩,
      ⟨176, [0, 7]⟩, ⟨180, [0, 8]⟩] := by
  have hmarks : marks <$> ofBytes oneOfEach = .ok [⟨95, [0, 33]⟩, ⟨166, [0, 10]⟩, ⟨105, [0, 2]⟩,
      ⟨115, [0, 1]⟩, ⟨137, [0xB7]⟩, ⟨176, [0, 7]⟩, ⟨180, [0, 8]⟩] := by decide +kernel
  obtain ⟨l, hl, hmarks⟩ := exists_of_map_ok hmarks
  exact ⟨l, hl, recorded_of_ofBytes hl, hmarks⟩

end Layout

end ClassAccess
