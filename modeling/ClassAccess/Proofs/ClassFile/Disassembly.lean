import ClassAccess.ClassFile.Layout
import ClassAccess.Proofs.ClassFile.Forms
import ClassAccess.Proofs.Reading.Taking

/-!
# Code taken apart

Stepping through code finds the instructions that it was assembled from, and code through which one
can step was assembled from instructions:

* `exists_form` -- **what has a length is an instruction** that may stand at its place;
* `exists_assembled` -- **code whose calls are found is assembled** from instructions;
* `Walk`, `walk_codeOf_iff` -- stepping from instruction to instruction, and that **it stops where
  the assembled instructions start**, and nowhere else;
* `foundCalls`, `calls_eq_foundCalls` -- the calls among instructions, each at its place;
* `HoldsCode.attributeCalls_eq` -- the calls of a code attribute are those of its code;
* `scan_exact` -- all of it together.
-/

namespace ClassAccess.Instruction

/-! ## 1. Instructions read off the front -/

/-- Whether an opcode may have a shape: as many operands as the length says, or the one opcode of
    the shape. -/
def Shape.Suits (op : UInt8) : Shape → Prop
  | .fixed n => operandCount? op = some (n - 1)
  | .wide => op = 0xC4
  | .tableSwitch => op = 0xAA
  | .lookupSwitch => op = 0xAB

/-- Opcodes beyond the table have no shape. -/
theorem lt_of_shape {op : UInt8} {shape : Shape} (h : Shape.ofOpcode op = some shape) :
    op.toNat < operandCounts.length := by
  rw [length_operandCounts]
  refine Nat.lt_of_not_le fun hle => ?_
  have hnone : ∀ k : Fin 54, Shape.ofOpcode (0xCA + k.val).toUInt8 = none := by decide +kernel
  have hlt := op.toNat_lt
  have hop := hnone ⟨op.toNat - 0xCA, by omega⟩
  simp only [Nat.add_sub_cancel' hle] at hop
  have hself : op.toNat.toUInt8 = op := UInt8.ofNat_toNat
  rw [hself, h] at hop
  cases hop

/-- **An opcode has the shape that its operands ask for.** -/
theorem shape_suits {op : UInt8} {shape : Shape} (h : Shape.ofOpcode op = some shape) :
    shape.Suits op := by
  have hall : (operandCounts.zipIdx.all fun p => (Shape.ofOpcode p.2.toUInt8).all fun shape =>
      match shape with
      | .fixed n => p.1 == some (n - 1)
      | .wide => p.2 == 0xC4
      | .tableSwitch => p.2 == 0xAA
      | .lookupSwitch => p.2 == 0xAB) = true := by
    decide +kernel
  have hlt := lt_of_shape h
  have hop := List.all_eq_true.1 hall _
    (List.mk_mem_zipIdx_iff_getElem?.2 (List.getElem?_eq_getElem hlt))
  have hself : op.toNat.toUInt8 = op := UInt8.ofNat_toNat
  simp only [hself, h, Option.all_some] at hop
  cases shape with
  | fixed n =>
      rw [beq_iff_eq] at hop
      rw [Shape.Suits, operandCount?, List.getElem?_eq_getElem hlt, hop]
      rfl
  | wide | tableSwitch | lookupSwitch => exact UInt8.toNat_inj.1 (beq_iff_eq.1 hop)

theorem wideLength?_cases {op : UInt8} {n : Nat} (h : wideLength? op = some n) :
    op = 0x84 ∧ n = 6 ∨ op ∈ localOpcodes ∧ n = 4 := by
  have hall : ∀ k : Fin 256, wideLength? (UInt8.ofFin k) = none ∨
      UInt8.ofFin k = 0x84 ∧ wideLength? (UInt8.ofFin k) = some 6 ∨
        UInt8.ofFin k ∈ localOpcodes ∧ wideLength? (UInt8.ofFin k) = some 4 := by
    decide +kernel
  rcases hall op.toFin with hop | ⟨hop, hlength⟩ | ⟨hop, hlength⟩
  · exact absurd (h.symm.trans hop) (Option.some_ne_none n)
  · exact .inl ⟨hop, Option.some.inj (h.symm.trans hlength)⟩
  · exact .inr ⟨hop, Option.some.inj (h.symm.trans hlength)⟩

theorem exists_bytes16 {x : Bytes} (h : 2 ≤ x.length) : ∃ w y, x = BigEndian.bytes16 w ++ y := by
  match x with
  | a :: b :: y => exact ⟨BigEndian.word16 a b, y, by rw [BigEndian.bytes16_word16]; rfl⟩
  | [] | [_] => simp only [List.length_cons, List.length_nil] at h; omega

theorem exists_bytes32 {x : Bytes} (h : 4 ≤ x.length) : ∃ w y, x = BigEndian.bytes32 w ++ y := by
  match x with
  | a :: b :: c :: d :: y =>
      exact ⟨BigEndian.word32 a b c d, y, by rw [BigEndian.bytes32_word32]; rfl⟩
  | [] | [_] | [_, _] | [_, _, _] => simp only [List.length_cons, List.length_nil] at h; omega

/-- A table of rows that are all of one size is there if there are bytes enough. -/
theorem exists_rows {α : Type} {f : α → Bytes} {size : Nat} (hsize : ∀ a, (f a).length = size)
    (hrow : ∀ x : Bytes, size ≤ x.length → ∃ a y, x = f a ++ y) :
    ∀ (k : Nat) (x : Bytes), k * size ≤ x.length →
      ∃ (rows : List α) (y : Bytes), rows.length = k ∧ x = rows.flatMap f ++ y
  | 0, x, _ => ⟨[], x, rfl, rfl⟩
  | k + 1, x, h => by
      rw [Nat.succ_mul] at h
      obtain ⟨a, y, rfl⟩ := hrow x (by omega)
      rw [List.length_append, hsize] at h
      obtain ⟨rows, z, hrows, rfl⟩ := exists_rows hsize hrow k y (by omega)
      refine ⟨a :: rows, z, by rw [List.length_cons, hrows], ?_⟩
      rw [List.flatMap_cons, List.append_assoc]

/-- A switch is cut into its fill, its first words, and what stands behind. -/
theorem exists_switch (pc : Nat) (rest : Bytes) (h : switchStart pc + 7 ≤ rest.length) :
    ∃ fill w v y, Form.Fills pc fill ∧
      rest = fill ++ (BigEndian.bytes32 w ++ (BigEndian.bytes32 v ++ y)) := by
  obtain ⟨w, x, hw⟩ := exists_bytes32 (x := rest.drop (switchStart pc - 1))
    (by rw [List.length_drop]; omega)
  have hx : 4 ≤ x.length := by
    have hlen := congrArg List.length hw
    rw [List.length_drop, List.length_append, BigEndian.length_bytes32] at hlen
    unfold switchStart at h hlen
    omega
  obtain ⟨v, y, hv⟩ := exists_bytes32 hx
  refine ⟨rest.take (switchStart pc - 1), w, v, y, ?_, ?_⟩
  · have hlen : (rest.take (switchStart pc - 1)).length = switchStart pc - 1 :=
      List.length_take_of_le (by omega)
    unfold switchStart at hlen ⊢
    unfold Form.Fills
    omega
  · rw [← hv, ← hw, List.take_append_drop]

/-- A word that is not negative is the number that it stands for. -/
theorem toUInt32_of_toInt {w : UInt32} (h : 0 ≤ w.toInt32.toInt) :
    w.toInt32.toInt.toNat.toUInt32 = w ∧ w.toInt32.toInt.toNat < 0x80000000 := by
  have hw : w.toInt32.toInt = w.toBitVec.toInt := rfl
  rw [hw] at h ⊢
  have hlt := w.toBitVec.isLt
  rw [BitVec.toInt_eq_toNat_cond] at h ⊢
  split at h
  · rename_i hsmall
    rw [if_pos hsmall, Int.toNat_natCast]
    refine ⟨?_, by omega⟩
    exact UInt32.toNat_inj.1 (Nat.mod_eq_of_lt hlt)
  · omega

theorem exists_wide {pc n : Nat} {widened : UInt8} {rest : Bytes}
    (hlength : wideLength? widened = some n) (hle : n ≤ rest.length + 2) :
    ∃ form : Form, ∃ tail, form.Fits pc ∧ 0xC4 :: widened :: rest = form.bytes ++ tail ∧
      form.bytes.length = n := by
  rcases wideLength?_cases hlength with ⟨rfl, rfl⟩ | ⟨hlocal, rfl⟩
  · obtain ⟨slot, y, rfl⟩ := exists_bytes16 (x := rest) (by omega)
    rw [List.length_append, BigEndian.length_bytes16] at hle
    obtain ⟨amount, tail, rfl⟩ := exists_bytes16 (x := y) (by omega)
    exact ⟨.wideIncrement slot amount, tail, trivial, rfl, rfl⟩
  · obtain ⟨slot, tail, rfl⟩ := exists_bytes16 (x := rest) (by omega)
    exact ⟨.wideLocal widened slot, tail, hlocal, rfl, rfl⟩

theorem exists_tableSwitch {pc : Nat} {rest : Bytes} {low high : Int}
    (hlow : wordAt? (0xAA :: rest) (switchStart pc + 4) = some low)
    (hhigh : wordAt? (0xAA :: rest) (switchStart pc + 8) = some high) (horder : ¬ high < low)
    (hle : switchStart pc + 12 + (high - low + 1).toNat * 4 ≤ rest.length + 1) :
    ∃ form : Form, ∃ tail, form.Fits pc ∧ 0xAA :: rest = form.bytes ++ tail ∧
      form.bytes.length = switchStart pc + 12 + (high - low + 1).toNat * 4 := by
  obtain ⟨fill, otherwise, first, y, hfill, rfl⟩ := exists_switch pc rest (by omega)
  have hstart := switchStart_eq hfill
  simp only [List.length_append, BigEndian.length_bytes32] at hle
  obtain ⟨last, z, rfl⟩ := exists_bytes32 (x := y) (by omega)
  rw [List.length_append, BigEndian.length_bytes32] at hle
  obtain ⟨targets, tail, htargets, rfl⟩ := exists_rows BigEndian.length_bytes32
    (fun _ => exists_bytes32) (high - low + 1).toNat z (by omega)
  -- the bounds are the words that stand at their places
  obtain rfl := Option.some.inj (hlow.symm.trans (wordAt?_switch hfill _ _ _ _))
  obtain rfl := Option.some.inj (hhigh.symm.trans (wordAt?_switch2 hfill _ _ _ _ _))
  refine ⟨.tableSwitch fill otherwise first.toInt32 last.toInt32 targets, tail,
    ⟨hfill, by omega, by omega⟩, ?_, ?_⟩
  · simp only [Form.bytes, List.append_assoc, List.cons_append]
    rfl
  · simp only [Form.bytes, List.length_cons, List.length_append, BigEndian.length_bytes32,
      length_targets]
    omega

theorem exists_lookupSwitch {pc : Nat} {rest : Bytes} {number : Int}
    (hnumber : wordAt? (0xAB :: rest) (switchStart pc + 4) = some number) (horder : ¬ number < 0)
    (hle : switchStart pc + 8 + number.toNat * 8 ≤ rest.length + 1) :
    ∃ form : Form, ∃ tail, form.Fits pc ∧ 0xAB :: rest = form.bytes ++ tail ∧
      form.bytes.length = switchStart pc + 8 + number.toNat * 8 := by
  obtain ⟨fill, otherwise, word, y, hfill, rfl⟩ := exists_switch pc rest (by omega)
  have hstart := switchStart_eq hfill
  simp only [List.length_append, BigEndian.length_bytes32] at hle
  have hsize : ∀ p : UInt32 × UInt32,
      (BigEndian.bytes32 p.1 ++ BigEndian.bytes32 p.2).length = 8 := fun _ => rfl
  have hrow : ∀ x : Bytes, 8 ≤ x.length → ∃ (p : UInt32 × UInt32) (y : Bytes),
      x = (BigEndian.bytes32 p.1 ++ BigEndian.bytes32 p.2) ++ y := by
    intro x hx
    obtain ⟨key, x', rfl⟩ := exists_bytes32 (x := x) (by omega)
    rw [List.length_append, BigEndian.length_bytes32] at hx
    obtain ⟨target, y, rfl⟩ := exists_bytes32 (x := x') (by omega)
    exact ⟨(key, target), y, by rw [List.append_assoc]⟩
  obtain ⟨pairs, tail, hpairs, rfl⟩ := exists_rows hsize hrow number.toNat y (by omega)
  obtain rfl := Option.some.inj (hnumber.symm.trans (wordAt?_switch hfill _ _ _ _))
  obtain ⟨hword, hlt⟩ := toUInt32_of_toInt (Int.not_lt.1 horder)
  refine ⟨.lookupSwitch fill otherwise pairs, tail, ⟨hfill, by omega⟩, ?_, ?_⟩
  · simp only [Form.bytes, hpairs, hword, List.append_assoc, List.cons_append]
  · simp only [Form.bytes, List.length_cons, List.length_append, BigEndian.length_bytes32,
      length_pairs]
    omega

/-- **What has a length is an instruction** that may stand at its place. -/
theorem exists_form {pc n : Nat} {code : Bytes} (h : lengthAt pc code = .ok n) :
    ∃ form : Form, ∃ tail, form.Fits pc ∧ code = form.bytes ++ tail ∧ form.bytes.length = n := by
  obtain ⟨hn, hle⟩ := lengthAt_ok.1 h
  rw [announcedLength_eq_ok_iff] at hn
  cases hn with
  | fixed op rest n hshape =>
      have hpos := fixed_pos hshape
      rw [List.length_cons] at hle
      have hlen : (rest.take (n - 1)).length = n - 1 := List.length_take_of_le (by omega)
      refine ⟨.plain op (rest.take (n - 1)), rest.drop (n - 1), ?_, ?_, ?_⟩
      · rw [Form.Fits, hlen]
        exact shape_suits hshape
      · rw [Form.bytes, List.cons_append, List.take_append_drop]
      · rw [Form.bytes, List.length_cons, hlen]
        omega
  | wide op widened rest n hshape hlength =>
      obtain rfl := shape_suits hshape
      exact exists_wide hlength hle
  | tableSwitch op rest low high hshape hlow hhigh horder =>
      obtain rfl := shape_suits hshape
      exact exists_tableSwitch hlow hhigh horder hle
  | lookupSwitch op rest number hshape hnumber horder =>
      obtain rfl := shape_suits hshape
      exact exists_lookupSwitch hnumber horder hle

/-! ## 2. Whole code -/

/-- Stepping through code without a fault goes through instructions. -/
theorem exists_assembled_of_callsFrom {start pc : Nat} {acc found : List Code.CallBytes}
    {code : Bytes} (h : Code.callsFrom start pc acc code = .ok found) :
    ∃ forms, Assembled pc forms ∧ codeOf forms = code := by
  fun_induction Code.callsFrom start pc acc code with
  | case1 pc acc => exact ⟨[], .nil, rfl⟩
  | case2 pc acc op rest fault hn => cases h
  | case3 pc acc op rest n hn ih =>
      obtain ⟨form, tail, hfits, hcode, rfl⟩ := exists_form hn
      obtain ⟨forms, hforms, hrest⟩ := ih h
      have htail : rest.drop (form.bytes.length - 1) = tail := by
        obtain ⟨op', x, hx⟩ := List.exists_cons_of_ne_nil form.bytes_ne_nil
        rw [hx, List.cons_append] at hcode
        rw [hx, (List.cons.inj hcode).2, List.length_cons, Nat.add_sub_cancel, List.drop_left]
      refine ⟨form :: forms, .cons hfits hforms, ?_⟩
      rw [codeOf, List.flatMap_cons, ← codeOf, hrest, htail, hcode]

/-- **Code whose calls are found is assembled** from instructions. -/
theorem exists_assembled {start : Nat} {found : List Code.CallBytes} {code : Bytes}
    (h : Code.calls start code = .ok found) : ∃ forms, Assembled 0 forms ∧ codeOf forms = code := by
  unfold Code.calls at h
  split at h
  · rename_i new hnew
    exact exists_assembled_of_callsFrom hnew
  · cases h

/-! ## 3. Where stepping stops -/

/-- Stepping through code from a place: the places where it stops, and where it ends. -/
inductive Walk (code : Bytes) : Nat → List Nat → Nat → Prop
  | nil (pc : Nat) : Walk code pc [] pc
  | cons {pc n finish : Nat} {places : List Nat} : length code pc = .ok n →
      Walk code (pc + n) places finish → Walk code pc (pc :: places) finish

/-- **An instruction has a first byte, and all of its bytes are there.** -/
theorem bounds_of_length {code : Bytes} {pc n : Nat} (h : length code pc = .ok n) :
    1 ≤ n ∧ pc + n ≤ code.length := by
  have hpos := lengthAt_pos h
  have hle := (lengthAt_ok.1 h).2
  rw [List.length_drop] at hle
  omega

theorem Walk.unique {code : Bytes} {pc : Nat} {places places' : List Nat}
    (h : Walk code pc places code.length) (h' : Walk code pc places' code.length) :
    places = places' := by
  generalize hfinish : code.length = finish at h
  induction h generalizing places' with
  | nil pc =>
      cases h' with
      | nil => rfl
      | cons hn _ =>
          have hle := bounds_of_length hn
          omega
  | cons hn _ ih =>
      cases h' with
      | nil =>
          have hle := bounds_of_length hn
          omega
      | cons hn' hrest =>
          cases hn.symm.trans hn'
          rw [ih hrest hfinish]

theorem walk_codeOf {pc : Nat} {forms : List Form} (h : Assembled pc forms) (front : Bytes)
    (hfront : front.length = pc) :
    Walk (front ++ codeOf forms) pc (starts pc forms) (front ++ codeOf forms).length := by
  induction h generalizing front with
  | nil =>
      rw [codeOf, List.flatMap_nil, List.append_nil, hfront]
      exact .nil _
  | @cons pc form rest hfits _ ih =>
      have hcode : front ++ codeOf (form :: rest) = front ++ form.bytes ++ codeOf rest := by
        rw [codeOf, List.flatMap_cons, ← codeOf, List.append_assoc]
      have hlength : length (front ++ codeOf (form :: rest)) pc = .ok form.bytes.length := by
        rw [length, hcode, List.append_assoc, ← hfront, List.drop_left, hfront]
        exact lengthAt_bytes hfits _
      refine .cons hlength ?_
      rw [hcode]
      exact ih _ (by rw [List.length_append, hfront])

/-- **Stepping through assembled code stops where its instructions start**, and nowhere else. -/
theorem walk_codeOf_iff {forms : List Form} (h : Assembled 0 forms) (places : List Nat) :
    Walk (codeOf forms) 0 places (codeOf forms).length ↔ places = starts 0 forms := by
  have hwalk := walk_codeOf h [] rfl
  rw [List.nil_append] at hwalk
  constructor
  · exact fun h' => h'.unique hwalk
  · intro hplaces
    rwa [hplaces]

/-! ## 4. The calls that are found -/

/-- The constant that stands behind the opcode of a call. -/
def Form.constant : Form → UInt16
  | plain _ (a :: b :: _) => BigEndian.word16 a b
  | _ => 0

/-- The calls among instructions of code that starts at an offset of the file: opcodes, places and
    constants of those instructions that have the opcode of a call. -/
def foundCalls (start : Nat) (forms : List Form) : List Code.CallBytes :=
  (((starts 0 forms).zip forms).filter fun p => Code.isCall p.2.opcode).map fun p =>
    ⟨start + p.1, p.2.opcode, p.2.constant⟩

theorem Form.call?_eq {pc : Nat} {form : Form} (h : form.Fits pc) (offset : Nat) :
    form.call? offset =
      if Code.isCall form.opcode then some ⟨offset, form.opcode, form.constant⟩ else none := by
  cases form with
  | plain opcode operands =>
      by_cases hcall : Code.isCall opcode = true
      · have hlength := lengthAt_bytes h []
        rw [List.append_nil] at hlength
        obtain ⟨a, b, y, rfl⟩ := Code.exists_of_isCall hcall hlength
        rfl
      · rw [Form.call?_of_not_isCall (Bool.eq_false_iff.2 hcall)]
        exact (if_neg hcall).symm
  | wideLocal | wideIncrement | tableSwitch | lookupSwitch => rfl

theorem callsOf_eq {pc : Nat} {forms : List Form} (h : Assembled pc forms) (start : Nat) :
    callsOf start pc forms =
      (((starts pc forms).zip forms).filter fun p => Code.isCall p.2.opcode).map fun p =>
        ⟨start + p.1, p.2.opcode, p.2.constant⟩ := by
  induction h with
  | nil => rfl
  | @cons pc form rest hfits _ ih =>
      rw [callsOf, starts, List.zip_cons_cons, List.filter_cons, Form.call?_eq hfits, ih]
      simp only
      split
      · rw [List.map_cons]
        rfl
      · rfl

/-- **The calls of assembled code** are the instructions with the opcode of a call. -/
theorem calls_eq_foundCalls {forms : List Form} (h : Assembled 0 forms) (start : Nat) :
    Code.calls start (codeOf forms) = .ok (foundCalls start forms) := by
  rw [calls_codeOf h, callsOf_eq h, foundCalls]

/-- An attribute holds code: behind two sizes and the length of the code stands the code, within the
    body of the attribute. -/
structure HoldsCode (a : Attribute) (code : Bytes) : Prop where
  name : a.name = Attribute.code
  length_lt : code.length < 0x100000000
  body : ∃ sizes rest : Bytes, sizes.length = 4 ∧
    a.body.rest = sizes ++ BigEndian.bytes32 code.length.toUInt32 ++ code ++ rest
  within : 8 + code.length ≤ a.length

/-- Code that is written behind two sizes and its length is read back. -/
theorem codeReading_written (o : Nat) {sizes code : Bytes} (hsizes : sizes.length = 4)
    (hlength : code.length < 0x100000000) (rest : Bytes) :
    Layout.codeReading
        ⟨o, sizes ++ (BigEndian.bytes32 code.length.toUInt32 ++ (code ++ rest))⟩ =
      .ok ((o + 8, code), ⟨o + 8 + code.length, rest⟩) := by
  have hn : code.length = code.length.toUInt32.toNat := (Nat.mod_eq_of_lt hlength).symm
  have hword : Reading.word32 ⟨o + 4, BigEndian.bytes32 code.length.toUInt32 ++ (code ++ rest)⟩ =
      .ok (code.length.toUInt32, ⟨o + 8, code ++ rest⟩) := by
    obtain ⟨_, hword, rfl⟩ := Reading.takes_word32 code.length.toUInt32 (o + 4) (code ++ rest)
    exact hword
  have hoffset : Reading.offset ⟨o + 8, code ++ rest⟩ = .ok (o + 8, ⟨o + 8, code ++ rest⟩) := rfl
  rw [Layout.codeReading, Reading.bind_ok (Reading.bytes_append hsizes _), Reading.bind_ok hword,
    Reading.bind_ok hoffset, Reading.bind_ok (Reading.bytes_append hn rest), ← hn]
  rfl

/-- **The calls of a code attribute are those of its code**, which starts behind eight bytes. -/
theorem HoldsCode.attributeCalls_eq {a : Attribute} {code : Bytes} (h : HoldsCode a code) :
    Layout.attributeCalls a = Code.calls (a.body.offset + 8) code := by
  obtain ⟨sizes, rest, hsizes, hbody⟩ := h.body
  have hsource : a.body = ⟨a.body.offset,
      sizes ++ (BigEndian.bytes32 code.length.toUInt32 ++ (code ++ rest))⟩ := by
    rw [← List.append_assoc, ← List.append_assoc, ← hbody]
  have hread := codeReading_written a.body.offset hsizes h.length_lt rest
  rw [← hsource] at hread
  have hwithin := h.within
  have hfinish : ¬ a.finish < a.body.offset + 8 + code.length := by
    unfold Attribute.finish
    omega
  simp only [Layout.attributeCalls, h.name, if_true, Attribute.contents, hread, if_neg hfinish]

/-- **Scanning code is exact.** Stepping through code that instructions make up stops where they
    start, and ends where the code does; the calls that are found, in code by itself and in the
    attribute of a method, are the instructions with the opcode of a call, in order. Whatever the
    code, what has a length at some place has a first byte, and all of its bytes are there; so the
    scan ends, with a fault or at the end of code that instructions make up. -/
theorem scan_exact :
    (∀ forms, Assembled 0 forms →
      (∀ places, Walk (codeOf forms) 0 places (codeOf forms).length ↔ places = starts 0 forms) ∧
        (∀ start, Code.calls start (codeOf forms) = .ok (foundCalls start forms)) ∧
          ∀ a, HoldsCode a (codeOf forms) →
            Layout.attributeCalls a = .ok (foundCalls (a.body.offset + 8) forms)) ∧
      (∀ code pc n, length code pc = .ok n → 1 ≤ n ∧ pc + n ≤ code.length) ∧
        ∀ start code, (∃ fault, Code.calls start code = .error fault) ∨
          ∃ forms, Assembled 0 forms ∧ codeOf forms = code := by
  refine ⟨fun forms h => ⟨walk_codeOf_iff h, calls_eq_foundCalls h, fun a ha => ?_⟩,
    fun _ _ _ h => bounds_of_length h, fun start code => ?_⟩
  · rw [ha.attributeCalls_eq, calls_eq_foundCalls h]
  · cases h : Code.calls start code with
    | error fault => exact .inl ⟨fault, rfl⟩
    | ok found => exact .inr (exists_assembled h)

/-- Switches and a widened instruction full of bytes that look like calls, with two calls among
    them. -/
def disguised : List Form :=
  [.plain 0x2A [], .lookupSwitch [0xB7, 0xB7] 0xB7B7B7B7 [(0xB8, 0xB9)], .plain 0xB7 [0, 5],
    .wideIncrement 0xB6B6 0xB6B6, .tableSwitch [0xB8, 0xB8] 0 (-1) 0 [0xBA, 0xBA],
    .plain 0xBA [0, 7, 0, 0], .plain 0xB1 []]

theorem scan_exact_disguised : Assembled 0 disguised ∧
    Walk (codeOf disguised) 0 [0, 1, 20, 23, 29, 52, 57] 58 ∧
      Code.calls 100 (codeOf disguised) = .ok [⟨120, 0xB7, 5⟩, ⟨152, 0xBA, 7⟩] ∧
        length (codeOf disguised) 29 = .ok 23 ∧ 29 + 23 ≤ (codeOf disguised).length := by
  have hload : operandCount? 0x2A = some 0 := by decide
  have hspecial : operandCount? 0xB7 = some 2 := by decide
  have hdynamic : operandCount? 0xBA = some 4 := by decide
  have hreturn : operandCount? 0xB1 = some 0 := by decide
  have hforms : Assembled 0 disguised :=
    .cons hload <| .cons ⟨⟨by decide, by decide⟩, by decide⟩ <| .cons hspecial <| .cons trivial <|
      .cons ⟨⟨by decide, by decide⟩, by decide, by decide⟩ <| .cons hdynamic <| .cons hreturn .nil
  have hlength : length (codeOf disguised) 29 = .ok 23 := by decide +kernel
  obtain ⟨hexact, hbounds, -⟩ := scan_exact
  obtain ⟨hwalk, hcalls, -⟩ := hexact disguised hforms
  exact ⟨hforms, (hwalk _).2 rfl, hcalls 100, hlength, (hbounds _ _ _ hlength).2⟩

end ClassAccess.Instruction
