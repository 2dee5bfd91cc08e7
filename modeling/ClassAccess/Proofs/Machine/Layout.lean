import ClassAccess.Machine.Layout
import ClassAccess.Proofs.ClassFile.Marks
import ClassAccess.Proofs.Machine.Text
import Mathlib.Algebra.Order.BigOperators.Group.List
import Mathlib.Algebra.Order.Ring.Nat

/-!
# Class files read without a trap

A machine counts its way through the file, where a reading holds what is left of it. Part by part
both come to the same, and the places stay within the file:

* `agrees_filled`, `agrees_pool` -- **constants**, of which each turn adds one at least;
* `Holds`, `agrees_block` -- an attribute as a block within the file, whose body can be read again
  (`agrees_codeCalls`, `agrees_tables`);
* `IndexedCall.Tells`, `IndexedMethod.Tells`, `IndexedLayout.Tells` -- what a machine keeps of a
  class, and that **the row of each dynamic call is there**;
* `agrees_ofBytes` -- **the whole file**;
* `Layout.countable_of_ofBytes` -- the rows of each table are no more than a machine can count.
-/

namespace ClassAccess

open Outcome
open Machine (Fits)

/-! ## 1. The constant pool -/

theorem Constant.slots_bounds (c : Constant) : 1 ≤ c.slots ∧ c.slots ≤ 2 := by
  unfold slots
  split <;> decide

namespace Machine.Scan

variable [Words] {data : Bytes} {place : Nat}

theorem agrees_constantBody (h : Fits data) (tag : UInt8) (start : Nat) :
    Agrees data place (constantBody tag start) (Constant.body tag start) Same := by
  have one : ∀ {place} (f : UInt16 → Constant), Agrees data place
      (do return f (← word16)) (do return f (← Reading.word16)) Same :=
    fun f => (agrees_word16 h).bind_same fun _ _ => agrees_pure rfl
  have two : ∀ f : UInt16 → UInt16 → Constant, Agrees data place
      (do return f (← word16) (← word16)) (do return f (← Reading.word16) (← Reading.word16))
      Same :=
    fun f => (agrees_word16 h).bind_same fun _ _ => one (f _)
  unfold constantBody Constant.body
  generalize tag.toNat = t
  match t with
  | 1 =>
      refine (agrees_word16 h).bind_same fun length here => agrees_offset_bind ?_
      refine (agrees_bytes h length.toNat).bind fun spelled _ _ hspelled => ?_
      obtain ⟨rfl, hlength, rfl, hle⟩ := hspelled
      rw [decode_eq (h.of_length_le (by omega)) (h.lt_words (by omega))]
      exact (agrees_of _).bind_same fun value _ => agrees_pure rfl
  | 3 | 4 => exact (agrees_word32 h).bind_same fun _ _ => agrees_pure rfl
  | 5 | 6 => exact (agrees_word64 h).bind_same fun _ _ => agrees_pure rfl
  | 7 | 8 | 16 | 19 | 20 => exact one _
  | 9 | 10 | 11 | 12 | 17 | 18 => exact two _
  | 15 => exact (agrees_byte h).bind_same fun kind _ => one _
  | 0 | 2 | 13 | 14 | n + 21 => exact agrees_fail _ _

theorem agrees_constant (h : Fits data) : Agrees data place constant Constant.reading Same :=
  agrees_offset_bind ((agrees_byte h).bind_same fun tag _ => agrees_constantBody h tag place)

/-- Entries until a pool has `count` slots, and whether the last one takes a slot too many. -/
def filled (count : UInt16) (turns : Nat) (pool : ConstantPool) : Scan ConstantPool := do
  let pool ← entries count.toNat turns pool
  if max count.toNat 1 < pool.count then check (failed (.invalidIndex count)) else return pool

theorem pool_eq : pool = word16 >>= fun count => filled count count.toNat {} := rfl

theorem filled_of_le {count : UInt16} {pool : ConstantPool} (turns : Nat)
    (h : count.toNat ≤ pool.count) : filled count turns pool =
      if max count.toNat 1 < pool.count then check (failed (.invalidIndex count))
      else return pool := by
  cases turns with
  | zero => simp only [filled, entries, if_neg (Nat.not_lt.2 h), pure_bind]
  | succ turns => simp only [filled, entries, if_neg (Nat.not_lt.2 h), pure_bind]

theorem filled_of_lt {count : UInt16} {pool : ConstantPool} {turns : Nat}
    (h : pool.count < count.toNat) : filled count (turns + 1) pool = (do
      let entry ← constant
      filled count turns (pool.add entry)) := by
  simp only [filled, entries, if_pos h, bind_assoc]

omit [Words] in
/-- Filling slots goes on from entry to entry. One that takes a slot too many ends it. -/
theorem fill_eq (count : UInt16) {missing : Nat} (h : missing ≠ 0) (pool : ConstantPool) :
    ConstantPool.fill count missing pool.slots = (do
      let entry ← Constant.reading
      if entry.slots ≤ missing then
        ConstantPool.fill count (missing - entry.slots) (pool.add entry).slots
      else Reading.fail (.invalidIndex count)) := by
  funext s
  rw [Reading.run_bind]
  obtain ⟨missing, rfl⟩ := Nat.exists_eq_succ_of_ne_zero h
  cases hread : Constant.reading s with
  | error fault => cases missing <;> simp only [ConstantPool.fill, hread]
  | ok p =>
      obtain ⟨entry, t⟩ := p
      unfold Constant.slots ConstantPool.add
      cases hwide : entry.isWide with
      | true =>
          cases missing with
          | zero => simp [ConstantPool.fill, hread, hwide, Reading.fail]
          | succ missing => simp [ConstantPool.fill, hread, hwide]
      | false =>
          cases missing with
          | zero => simp [ConstantPool.fill, hread, hwide]
          | succ missing => simp [ConstantPool.fill, hread, hwide]

/-- **Slots are filled without a trap**: as many turns as slots are missing are enough, since each
    entry takes a slot. -/
theorem agrees_filled (h : Fits data) {count : UInt16} {missing turns : Nat} {pool : ConstantPool}
    (hpool : 1 ≤ pool.count) (hcount : pool.count + missing = max count.toNat 1)
    (hturns : missing ≤ turns) :
    Agrees data place (filled count turns pool)
      (do return ⟨← ConstantPool.fill count missing pool.slots⟩) Same := by
  induction turns generalizing place missing pool with
  | zero =>
      obtain rfl := Nat.le_zero.1 hturns
      rw [filled_of_le 0 (by omega), if_neg (by omega)]
      exact agrees_pure rfl
  | succ turns ih =>
      by_cases hmissing : missing = 0
      · subst hmissing
        rw [filled_of_le _ (by omega), if_neg (by omega)]
        exact agrees_pure rfl
      · rw [filled_of_lt (by omega), fill_eq count hmissing, bind_assoc]
        refine (agrees_constant h).bind_same fun entry here => ?_
        have hadd : (pool.add entry).count = pool.count + entry.slots := ConstantPool.count_add
        have hslots := entry.slots_bounds
        split
        · exact ih (by omega) (by omega) (by omega)
        · rw [filled_of_le turns (by omega), if_pos (by omega)]
          exact agrees_fail _ _

theorem agrees_pool (h : Fits data) : Agrees data place pool ConstantPool.reading Same := by
  rw [pool_eq]
  refine (agrees_word16 h).bind_same fun count here => ?_
  have hone : ({} : ConstantPool).count = 1 := rfl
  exact agrees_filled h (Nat.le_of_eq hone.symm) (by omega) (by omega)

/-! ## 2. Attributes -/

/-- A block is what an attribute is, and lies within the file. -/
structure Holds (data : Bytes) (b : Block) (a : Attribute) : Prop where
  name : b.name = a.name
  body : a.body = .from data b.place
  length : a.length = b.body.length
  within : b.place + b.body.length ≤ data.length

theorem agrees_block (h : Fits data) (pool : ConstantPool) :
    Agrees data place (block pool) (Attribute.reading pool) fun b a _ => Holds data b a := by
  refine agrees_lookup_bind h fun name _ => ?_
  refine (agrees_word32 h).bind_same fun length _ => agrees_source_bind ?_
  refine (agrees_bytes h length.toNat).bind fun body body' here hbody => ?_
  obtain ⟨rfl, hlength, rfl, hle⟩ := hbody
  exact agrees_pure ⟨rfl, rfl, hlength.symm, hlength ▸ hle⟩

omit [Words] in
/-- What is read elsewhere in the file does not change the place of the next byte. -/
theorem agrees_elsewhere {α β : Type} {other : Nat} {m : Scan α} {y : Except Fault β}
    {R : α → β → Prop} (h : (m data other).Agrees y fun p b => R p.1 b) :
    Agrees data place (elsewhere other m) (Reading.check y) fun a b _ => R a b := by
  intro hplace
  cases y with
  | error fault =>
      rw [show elsewhere other m data place = _ from
        congrArg (· >>= fun p : α × Nat => pure (p.1, place)) (show m data other = _ from h)]
      rfl
  | ok b =>
      obtain ⟨p, hp, hr⟩ := h
      rw [show elsewhere other m data place = _ from
        congrArg (· >>= fun p : α × Nat => pure (p.1, place)) hp]
      exact ⟨_, rfl, rfl, hplace, hr⟩

variable {b : Block} {a : Attribute}

/-- The end of a block is held against a place of the file without a trap. -/
theorem Holds.reaches (h : Fits data) (hb : Holds data b a) (place : Nat) :
    b.reaches place =
      if a.finish < place then failed (.unexpectedEnd a.finish) else done () := by
  have hwithin := hb.within
  unfold Block.reaches Attribute.finish
  rw [sum_eq (h.lt_words (by omega)), done_bind, hb.length, hb.body]
  rfl

omit [Words] in
theorem contents_eq {α : Type} (a : Attribute) (r : Reading α) : a.contents r = (do
    let q ← r a.body
    if a.finish < q.2.offset then .error (.unexpectedEnd a.finish) else .ok q.1) := by
  unfold Attribute.contents
  cases r a.body <;> rfl

theorem agrees_code (h : Fits data) :
    Agrees data place code Layout.codeReading fun x y here =>
      x = y ∧ x.1 + x.2.length = here ∧ here ≤ data.length := by
  refine (agrees_bytes h 4).bind fun _ _ _ _ => ?_
  refine (agrees_word32 h).bind_same fun length _ => agrees_offset_bind ?_
  refine (agrees_bytes h length.toNat).bind fun code code' here hcode => ?_
  obtain ⟨rfl, hlength, rfl, hle⟩ := hcode
  exact agrees_pure ⟨rfl, congrArg _ hlength, hle⟩

omit [Words] in
theorem attributeCalls_eq (a : Attribute) : Layout.attributeCalls a =
    if a.name = Attribute.code then do
      let (start, code) ← a.contents Layout.codeReading
      Code.calls start code
    else .ok [] := by
  unfold Layout.attributeCalls
  split
  · cases a.contents Layout.codeReading <;> rfl
  · rfl

/-- **The calls in the code that a block holds**: the code lies within the file, and so do its
    instructions. -/
theorem agrees_codeCalls (h : Fits data) (hb : Holds data b a) (hname : a.name = Attribute.code) :
    Agrees data place (codeCalls b) (Reading.check (Layout.attributeCalls a)) Same := by
  have hwithin := hb.within
  refine agrees_elsewhere ?_
  rw [attributeCalls_eq, if_pos hname, contents_eq, bind_assoc, hb.body]
  refine (agrees_code h (by omega)).bind fun p q hpq => ?_
  obtain ⟨⟨start, code⟩, here⟩ := p
  obtain ⟨hs, hle, hsame, hhere, -⟩ := hpq
  obtain rfl : q = ((start, code), .from data here) := Prod.ext hsame.symm hs
  simp only at hhere hle
  simp only [check]
  rw [sum_eq (h.lt_words (by omega)), done_bind, hhere, hb.reaches h,
    show (Source.from data here).offset = here from rfl]
  split
  · rfl
  · rw [done_bind, calls_eq (h.of_length_le (by omega)) (h.lt_words (by omega))]
    show Machine.Agrees _ (Code.calls start code) _
    cases Code.calls start code with
    | error fault => rfl
    | ok calls => exact ⟨_, rfl, rfl⟩

theorem agrees_attributeCalls (h : Fits data) (hb : Holds data b a) :
    Agrees data place (if b.name = Attribute.code then codeCalls b else return [])
      (Reading.check (Layout.attributeCalls a)) Same := by
  rw [hb.name]
  split
  · rename_i hname
    exact agrees_codeCalls h hb hname
  · rename_i hname
    rw [attributeCalls_eq, if_neg hname]
    exact agrees_pure rfl

/-! ## 3. Declarations and tables -/

theorem agrees_header (h : Fits data) (version : Version) (pool : ConstantPool) :
    Agrees data place (header version pool) (Layout.headerReading version pool) Same := by
  refine agrees_offset_bind ((agrees_word16 h).bind_same fun access _ => ?_)
  refine agrees_lookup_bind h fun name _ => agrees_lookup_bind h fun superName _ => ?_
  have hinterface : ∀ place, Agrees data place (do check (of (pool.className (← word16))))
      (do Reading.check (pool.className (← Reading.word16))) Same :=
    fun _ => (agrees_word16 h).bind_same fun i _ => agrees_of _
  exact (agrees_counted_same h hinterface).bind_same fun interfaces _ => agrees_pure rfl

theorem agrees_field (h : Fits data) (pool : ConstantPool) :
    Agrees data place (field pool) (Layout.fieldReading pool) Same := by
  refine agrees_offset_bind ((agrees_word16 h).bind_same fun access _ => ?_)
  refine agrees_lookup_bind h fun name _ => agrees_lookup_bind h fun descriptor _ => ?_
  exact (agrees_counted h fun _ => agrees_block h pool).bind fun _ _ _ _ => agrees_pure rfl

theorem agrees_method (h : Fits data) (pool : ConstantPool) :
    Agrees data place (method pool) (Layout.methodReading pool) Same := by
  refine agrees_offset_bind ((agrees_word16 h).bind_same fun access _ => ?_)
  refine agrees_lookup_bind h fun name _ => agrees_lookup_bind h fun descriptor _ => ?_
  exact (agrees_counted_same h fun _ => (agrees_block h pool).bind fun b a _ hb =>
    agrees_attributeCalls h hb).bind_same fun calls _ => agrees_pure rfl

theorem agrees_innerClass (h : Fits data) (pool : ConstantPool) :
    Agrees data place (innerClass pool) (Layout.innerClassReading pool) Same :=
  agrees_lookup_bind h fun _ _ => agrees_lookup_bind h fun _ _ => agrees_lookup_bind h fun _ _ =>
    agrees_offset_bind ((agrees_word16 h).bind_same fun _ _ => agrees_pure rfl)

theorem agrees_index (h : Fits data) : Agrees data place index Layout.indexReading Same :=
  agrees_offset_bind ((agrees_word16 h).bind_same fun _ _ => agrees_pure rfl)

theorem agrees_bootstrap (h : Fits data) :
    Agrees data place bootstrap Layout.bootstrapReading Same :=
  (agrees_index h).bind_same fun _ _ =>
    (agrees_counted_same h fun _ => agrees_index h).bind_same fun _ _ => agrees_pure rfl

/-- The tables in the body of an attribute, read. -/
def foundReading (pool : ConstantPool) (name : String) :
    Reading (List (Placed InnerClass) × List BootstrapEntry) :=
  if name = Attribute.innerClasses then
    (·, []) <$> Reading.counted (Layout.innerClassReading pool)
  else if name = Attribute.bootstrapMethods then
    ([], ·) <$> Reading.counted Layout.bootstrapReading
  else return ([], [])

omit [Words] in
theorem contents_map {α β : Type} (a : Attribute) (r : Reading α) (f : α → β) :
    a.contents (f <$> r) = f <$> a.contents r := by
  rw [contents_eq, contents_eq, show (f <$> r) a.body = (r a.body >>= fun q => .ok (f q.1, q.2)) by
    rfl]
  cases r a.body with
  | error fault => rfl
  | ok q =>
      show (if _ then _ else _) = f <$> (if _ then _ else _)
      split <;> rfl

omit [Words] in
theorem attributeTables_eq (pool : ConstantPool) (a : Attribute) :
    Layout.attributeTables pool a = a.contents (foundReading pool a.name) := by
  unfold Layout.attributeTables foundReading
  split
  · exact (contents_map a _ _).symm
  split
  · exact (contents_map a _ _).symm
  · rw [contents_eq]
    exact (if_neg (Nat.not_lt.2 (Nat.le_add_right _ _))).symm

theorem agrees_found (h : Fits data) (pool : ConstantPool) (name : String) :
    Agrees data place (found pool name) (foundReading pool name) Same := by
  unfold found foundReading
  split
  · rw [map_eq_pure_bind, map_eq_pure_bind]
    exact (agrees_counted_same h fun _ => agrees_innerClass h pool).bind_same fun _ _ =>
      agrees_pure rfl
  split
  · rw [map_eq_pure_bind, map_eq_pure_bind]
    exact (agrees_counted_same h fun _ => agrees_bootstrap h).bind_same fun _ _ => agrees_pure rfl
  · exact agrees_pure rfl

/-- **The tables that a block holds**, and that they do not reach beyond its end. -/
theorem agrees_tables (h : Fits data) (hb : Holds data b a) (pool : ConstantPool) :
    Agrees data place (tables pool b) (Reading.check (Layout.attributeTables pool a)) Same := by
  have hwithin := hb.within
  refine agrees_elsewhere ?_
  rw [attributeTables_eq, contents_eq, hb.body, hb.name]
  refine (agrees_found h pool a.name (by omega)).bind fun p q hpq => ?_
  obtain ⟨found, here⟩ := p
  obtain ⟨hs, hle, hsame⟩ := hpq
  obtain rfl : q = (found, .from data here) := Prod.ext hsame.symm hs
  show Machine.Agrees (check _ data here) _ _
  simp only [check]
  rw [hb.reaches h, show (Source.from data here).offset = here from rfl]
  split
  · rfl
  · exact ⟨_, rfl, rfl⟩

theorem agrees_preamble (h : Fits data) :
    Agrees data place preamble Layout.preamble Same := by
  refine (agrees_word32 h).bind_same fun magic here => ?_
  have hrest : ∀ place, Agrees data place
      (do
        let minor ← word16
        let major ← word16
        let pool ← pool
        let poolEnd ← offset
        return ((⟨major, minor⟩ : Version), pool, poolEnd))
      (do
        let minor ← Reading.word16
        let major ← Reading.word16
        let pool ← ConstantPool.reading
        let poolEnd ← Reading.offset
        return (⟨major, minor⟩, pool, poolEnd)) Same :=
    fun _ => (agrees_word16 h).bind_same fun _ _ => (agrees_word16 h).bind_same fun _ _ =>
      (agrees_pool h).bind_same fun _ _ => agrees_offset_bind (agrees_pure rfl)
  split
  · exact (agrees_fail _ Same).bind_same fun _ => hrest
  · exact hrest here

end Machine.Scan

/-! ## 4. Calls that are looked up -/

/-- A call with the number of its row is the call with its row. -/
inductive IndexedCall.Tells (bootstraps : List BootstrapEntry) : IndexedCall → PlacedCall → Prop
  | direct (call : Placed Call) : Tells bootstraps (.direct call) (.direct call)
  | dynamic (call : DynamicCall) (row : UInt16) (entry : BootstrapEntry)
      (get : bootstraps[row.toNat]? = some entry) :
      Tells bootstraps (.dynamic call row) (.dynamic call entry)

/-- A method with indexed calls is the method with placed calls. -/
structure IndexedMethod.Tells (bootstraps : List BootstrapEntry) (n : IndexedMethod)
    (m : MethodLayout) : Prop where
  declaration : n.declaration = m.declaration
  calls : List.Forall₂ (IndexedCall.Tells bootstraps) n.calls m.calls

/-- The layout that a machine reads is the layout of the class. -/
structure IndexedLayout.Tells (n : IndexedLayout) (l : Layout) : Prop where
  data : n.data = l.data
  pool : n.pool = l.pool
  poolEnd : n.poolEnd = l.poolEnd
  header : n.header = l.header
  innerClasses : n.innerClasses = l.innerClasses
  fields : n.fields = l.fields
  bootstraps : n.bootstraps = l.bootstraps
  methods : List.Forall₂ (IndexedMethod.Tells l.bootstraps) n.methods l.methods

namespace IndexedLayout

open Machine (of agrees_of_bind)

variable {pool : ConstantPool} {bootstraps : List BootstrapEntry}

theorem agrees_dynamicCallAt (index : UInt16) :
    (of (dynamicCallAt pool bootstraps index)).Agrees (Layout.dynamicCallAt pool bootstraps index)
      (IndexedCall.Tells bootstraps) := by
  refine agrees_of_bind fun entry => ?_
  cases entry
  case callSite bootstrap signature =>
    simp only
    cases hrow : bootstraps[bootstrap.toNat]? with
    | none => rfl
    | some entry =>
        refine agrees_of_bind fun names => agrees_of_bind fun handle => ?_
        refine agrees_of_bind fun arguments => ?_
        exact ⟨_, rfl, .dynamic _ bootstrap entry hrow⟩
  all_goals rfl

theorem agrees_directCallAt (c : Code.CallBytes) :
    (of (directCallAt pool c)).Agrees (Layout.directCallAt pool c)
      (IndexedCall.Tells bootstraps) := by
  refine agrees_of_bind fun entry => ?_
  cases entry
  case field owner signature => rfl
  all_goals
    refine agrees_of_bind fun target => ?_
    cases CallKind.ofOpcode? c.opcode with
    | none => rfl
    | some kind => exact ⟨_, rfl, .direct _⟩

theorem agrees_resolve (c : Code.CallBytes) :
    (of (resolve pool bootstraps c)).Agrees (Layout.resolve pool bootstraps c)
      (IndexedCall.Tells bootstraps) := by
  unfold resolve Layout.resolve
  split
  · exact agrees_dynamicCallAt c.index
  · exact agrees_directCallAt c

theorem agrees_resolveMethod (m : Placed MethodDeclaration × List Code.CallBytes) :
    (of (resolveMethod pool bootstraps m)).Agrees (Layout.resolveMethod pool bootstraps m)
      (IndexedMethod.Tells bootstraps) := by
  unfold resolveMethod Layout.resolveMethod
  rw [Machine.of_bind]
  exact (Machine.agrees_mapM agrees_resolve m.2).bind fun calls calls' h => ⟨_, rfl, rfl, h⟩

/-! ## 5. Whole files -/

open Machine.Scan in
theorem agrees_scan [Words] {data : Bytes} (h : Fits data) :
    Agrees data 0 (scan data) (Layout.reading data) fun n l _ => n.Tells l := by
  refine (agrees_preamble h).bind_same fun front _ => ?_
  obtain ⟨version, pool, poolEnd⟩ := front
  refine (agrees_header h version pool).bind_same fun header _ => ?_
  refine (agrees_counted_same h fun _ => agrees_field h pool).bind_same fun fields _ => ?_
  refine (agrees_counted_same h fun _ => agrees_method h pool).bind_same fun methods _ => ?_
  refine (agrees_counted_same h fun _ => (agrees_block h pool).bind fun b a _ hb =>
    agrees_tables h hb pool).bind_same fun tables _ => ?_
  refine (agrees_check (Machine.agrees_mapM agrees_resolveMethod methods)).bind
    fun indexed placed _ hmethods => ?_
  exact agrees_pure ⟨rfl, rfl, rfl, rfl, rfl, rfl, rfl, hmethods⟩

/-- **A class file is read without a trap**: what a machine reads is its layout, or the same fault
    is met. -/
theorem agrees_ofBytes [Words] {data : Bytes} (h : Fits data) :
    (ofBytes data).Agrees (Layout.ofBytes data) Tells := by
  have hscan := agrees_scan h (Nat.zero_le _)
  rw [show Source.from data 0 = Source.ofBytes data from rfl] at hscan
  unfold ofBytes Layout.ofBytes
  cases hl : Layout.reading data (Source.ofBytes data) with
  | error fault =>
      rw [hl] at hscan
      rw [show scan data data 0 = .failed fault from hscan]
      rfl
  | ok q =>
      rw [hl] at hscan
      obtain ⟨p, hp, -, -, htells⟩ := hscan
      rw [hp]
      exact ⟨p.1, rfl, htells⟩

/-- **The events of a class that a machine reads are those of its layout.** -/
theorem Tells.events {n : IndexedLayout} {l : Layout} (h : n.Tells l) : n.events = l.events := by
  have hcalls : ∀ {calls : List IndexedCall} {placed : List PlacedCall},
      List.Forall₂ (IndexedCall.Tells l.bootstraps) calls placed →
        calls.map IndexedCall.event = placed.map PlacedCall.event := by
    intro calls placed hcalls
    induction hcalls with
    | nil => rfl
    | cons hcall _ ih =>
        rw [List.map_cons, List.map_cons, ih]
        cases hcall <;> rfl
  have hmethods : ∀ {methods : List IndexedMethod} {placed : List MethodLayout},
      List.Forall₂ (IndexedMethod.Tells l.bootstraps) methods placed →
        methods.flatMap IndexedMethod.events = placed.flatMap MethodLayout.events := by
    intro methods placed hmethods
    induction hmethods with
    | nil => rfl
    | cons hmethod _ ih =>
        rw [List.flatMap_cons, List.flatMap_cons, ih, IndexedMethod.events, MethodLayout.events,
          hmethod.declaration, hcalls hmethod.calls]
  rw [IndexedLayout.events, Layout.events, h.header, h.innerClasses, h.fields, hmethods h.methods]

end IndexedLayout

/-! ## 6. How many rows there are -/

/-- Marks that hold bytes are no more than the bytes between their bounds. -/
theorem Laid.length_le {data : Bytes} {lo hi : Nat} {marks : List Mark}
    (h : Laid data lo hi marks) (hne : ∀ m ∈ marks, m.bytes ≠ []) : lo + marks.length ≤ hi := by
  induction marks generalizing lo with
  | nil => exact h
  | cons m marks ih =>
      obtain ⟨hlo, -, hrest⟩ := h
      have hle := ih hrest fun m' hm' => hne m' (List.mem_cons_of_mem _ hm')
      have hpos := List.length_pos_iff.2 (hne m List.mem_cons_self)
      unfold Mark.finish at hle
      rw [List.length_cons]
      omega

theorem Parts.marks_ne_nil {parts : Parts} {m : Mark} (hm : m ∈ parts.marks) : m.bytes ≠ [] := by
  simp only [Parts.marks, Parts.methodMarks, Parts.tableMarks, BootstrapEntry.marks, List.mem_cons,
    List.mem_append, List.mem_map, List.mem_flatMap] at hm
  rcases hm with rfl | (⟨field, -, rfl⟩ | ⟨method, -, rfl | ⟨call, -, rfl⟩⟩) |
    ⟨table, -, ⟨record, -, rfl⟩ | ⟨row, -, place, -, rfl⟩⟩
  all_goals exact List.cons_ne_nil _ _

namespace Layout

variable [Words]

/-- The rows of each table, and the calls of each method, are no more than a machine can count. -/
structure Countable (l : Layout) : Prop where
  innerClasses : l.innerClasses.length < Machine.words
  fields : l.fields.length < Machine.words
  methods : l.methods.length < Machine.words
  calls : ∀ m ∈ l.methods, m.calls.length < Machine.words

/-- **The rows of a class can be counted**, since each stands in bytes of its own. -/
theorem countable_of_ofBytes {data : Bytes} {l : Layout} (hfits : Fits data)
    (h : ofBytes data = .ok l) : l.Countable := by
  obtain ⟨version, s, parts, t, hs, hparts, hmade, -⟩ := ofBytes_ok h
  obtain ⟨x, hdata, hoffset, hend, -⟩ := front_of_preamble hs
  have hsource : s = .from data l.poolEnd := by
    rw [Source.from, hdata, hend, List.drop_left, ← hoffset]
  have hle : l.poolEnd ≤ data.length := by
    rw [hdata, hend, List.length_append]
    exact Nat.le_add_right _ _
  rw [hsource] at hparts
  obtain ⟨finish, -, -, hfinish, hbuilt⟩ := Parts.finds version _ hle _ _ hparts
  have hmarks := hbuilt.laid.length_le fun m hm => Parts.marks_ne_nil hm
  simp only [Parts.marks, List.length_cons, List.length_append, List.length_map,
    List.length_flatMap] at hmarks
  have hplaced := mapM_eq_ok_iff.1 hmade.methods
  refine ⟨?_, ?_, ?_, fun m hm => ?_⟩
  · have hrecords : (parts.tables.map fun t => t.1.length).sum ≤
        (parts.tables.map fun t => (Parts.tableMarks t).length).sum := by
      refine List.sum_le_sum fun t _ => ?_
      rw [Parts.tableMarks, List.length_append, List.length_map]
      exact Nat.le_add_right _ _
    rw [hmade.innerClasses, List.length_flatMap]
    exact hfits.lt_words (by omega)
  · rw [hmade.fields]
    exact hfits.lt_words (by omega)
  · have hmethods : (parts.methods.map fun _ => 1).sum ≤
        (parts.methods.map fun m => (Parts.methodMarks m).length).sum :=
      List.sum_le_sum fun m _ => Nat.succ_le_succ (Nat.zero_le _)
    rw [List.map_const', List.sum_replicate_nat, Nat.mul_one] at hmethods
    rw [← hplaced.length_eq]
    exact hfits.lt_words (by omega)
  · obtain ⟨m', hm', hresolved⟩ := exists_of_forall₂_right hplaced hm
    have hmethod : (Parts.methodMarks m').length ≤
        (parts.methods.map fun m => (Parts.methodMarks m).length).sum :=
      List.le_sum_of_mem (List.mem_map_of_mem hm')
    obtain ⟨calls, hcalls, hresolved⟩ := exists_of_bind_ok hresolved
    cases hresolved
    rw [Parts.methodMarks, List.length_cons, List.length_map,
      (mapM_eq_ok_iff.1 hcalls).length_eq] at hmethod
    show calls.length < _
    exact hfits.lt_words (by omega)

end Layout

end ClassAccess
