import ClassAccess.Instruction.Form
import ClassAccess.Proofs.ClassFile.Calls
import ClassAccess.Proofs.Reading.Words

/-!
# Code that was assembled

Code that instructions make up is taken apart into the same instructions:

* `announces_bytes`, `lengthAt_bytes` -- **an instruction that may stand at a place of the code
  announces its own length there**, whatever comes behind it;
* `Form.call?`, `callAt?_bytes` -- the call that an instruction is, if it is one;
* `callsOf`, `calls_codeOf` -- **the calls of assembled code are those of its instructions**, in
  order.
-/

namespace ClassAccess.Instruction

/-! ## 1. Lengths -/

/-- An opcode with a number of operand bytes has a length that is one more. -/
theorem shape_of_operandCount {op : UInt8} {n : Nat} (h : operandCount? op = some n) :
    Shape.ofOpcode op = some (.fixed (n + 1)) := by
  have hall : (operandCounts.zipIdx.all fun p => p.1.all fun n =>
      Shape.ofOpcode p.2.toUInt8 == some (.fixed (n + 1))) = true := by
    decide +kernel
  have hcount : operandCounts[op.toNat]? = some (some n) := Option.join_eq_some_iff.1 h
  have hop := List.all_eq_true.1 hall _ (List.mk_mem_zipIdx_iff_getElem?.2 hcount)
  have hself : op.toNat.toUInt8 = op := UInt8.ofNat_toNat
  simp only [Option.all_some, beq_iff_eq, hself] at hop
  exact hop

theorem wideLength?_of_mem {op : UInt8} (h : op ∈ localOpcodes) : wideLength? op = some 4 := by
  have hall : (localOpcodes.all fun op => wideLength? op == some 4) = true := by decide
  exact beq_iff_eq.1 (List.all_eq_true.1 hall op h)

theorem switchStart_eq {pc : Nat} {fill : Bytes} (h : Form.Fills pc fill) :
    switchStart pc = fill.length + 1 := by
  obtain ⟨hlt, hmod⟩ := h
  unfold switchStart
  omega

/-- A word is read at the place where it was written. -/
theorem wordAt?_bytes32 {x : Bytes} {n : Nat} (hn : x.length = n) (w : UInt32) (y : Bytes) :
    wordAt? (x ++ (BigEndian.bytes32 w ++ y)) n = some w.toInt32.toInt := by
  subst hn
  unfold wordAt?
  rw [List.drop_left]
  show some (BigEndian.word32 _ _ _ _).toInt32.toInt = _
  rw [BigEndian.word32_bytes32]

/-- The first word behind the one for all other cases of a switch. -/
theorem wordAt?_switch {pc : Nat} {fill : Bytes} (h : Form.Fills pc fill) (op : UInt8)
    (otherwise w : UInt32) (y : Bytes) :
    wordAt? (op :: (fill ++ (BigEndian.bytes32 otherwise ++ (BigEndian.bytes32 w ++ y))))
      (switchStart pc + 4) = some w.toInt32.toInt := by
  have hlength : (op :: (fill ++ BigEndian.bytes32 otherwise)).length = switchStart pc + 4 := by
    rw [switchStart_eq h, List.length_cons, List.length_append, BigEndian.length_bytes32]
  have hword := wordAt?_bytes32 hlength w y
  rwa [List.cons_append, List.append_assoc] at hword

/-- The second word behind it. -/
theorem wordAt?_switch2 {pc : Nat} {fill : Bytes} (h : Form.Fills pc fill) (op : UInt8)
    (otherwise v w : UInt32) (y : Bytes) :
    wordAt? (op :: (fill ++ (BigEndian.bytes32 otherwise ++ (BigEndian.bytes32 v ++
      (BigEndian.bytes32 w ++ y))))) (switchStart pc + 8) = some w.toInt32.toInt := by
  have hlength : (op :: (fill ++ (BigEndian.bytes32 otherwise ++ BigEndian.bytes32 v))).length =
      switchStart pc + 8 := by
    simp only [switchStart_eq h, List.length_cons, List.length_append, BigEndian.length_bytes32]
  have hword := wordAt?_bytes32 hlength w y
  rwa [List.cons_append, List.append_assoc, List.append_assoc] at hword

theorem toInt_ofNat_of_lt {n : Nat} (h : n < 0x80000000) : n.toUInt32.toInt32.toInt = n := by
  show (BitVec.ofNat 32 n).toInt = n
  have hn : (BitVec.ofNat 32 n).toNat = n := by
    rw [BitVec.toNat_ofNat]
    omega
  rw [BitVec.toInt_eq_toNat_of_lt (by omega), hn]

theorem length_targets (targets : List UInt32) :
    (targets.flatMap BigEndian.bytes32).length = 4 * targets.length := by
  induction targets with
  | nil => rfl
  | cons t targets ih =>
      rw [List.flatMap_cons, List.length_append, ih, BigEndian.length_bytes32, List.length_cons]
      omega

theorem length_pairs (pairs : List (UInt32 × UInt32)) :
    (pairs.flatMap fun p => BigEndian.bytes32 p.1 ++ BigEndian.bytes32 p.2).length =
      8 * pairs.length := by
  induction pairs with
  | nil => rfl
  | cons p pairs ih =>
      rw [List.flatMap_cons, List.length_append, ih, List.length_append, BigEndian.length_bytes32,
        BigEndian.length_bytes32, List.length_cons]
      omega

/-- **An instruction announces its own length** where it may stand. -/
theorem announces_bytes {pc : Nat} {form : Form} (h : form.Fits pc) (rest : Bytes) :
    Announces pc (form.bytes ++ rest) form.bytes.length := by
  cases form with
  | plain opcode operands => exact .fixed opcode (operands ++ rest) _ (shape_of_operandCount h)
  | wideLocal opcode slot => exact .wide 0xC4 opcode _ 4 rfl (wideLength?_of_mem h)
  | wideIncrement slot amount => exact .wide 0xC4 0x84 _ 6 rfl rfl
  | tableSwitch fill otherwise low high targets =>
      obtain ⟨hfill, hle, htargets⟩ := h
      have hstart := switchStart_eq hfill
      have hcode : (Form.tableSwitch fill otherwise low high targets).bytes ++ rest =
          0xAA :: (fill ++ (BigEndian.bytes32 otherwise ++ (BigEndian.bytes32 low.toUInt32 ++
            (BigEndian.bytes32 high.toUInt32 ++
              (targets.flatMap BigEndian.bytes32 ++ rest))))) := by
        simp only [Form.bytes, List.append_assoc, List.cons_append]
      have hlength : (Form.tableSwitch fill otherwise low high targets).bytes.length =
          switchStart pc + 12 + (high.toInt - low.toInt + 1).toNat * 4 := by
        simp only [Form.bytes, List.length_cons, List.length_append, BigEndian.length_bytes32,
          length_targets]
        omega
      rw [hcode, hlength]
      exact .tableSwitch 0xAA _ low.toInt high.toInt rfl (wordAt?_switch hfill _ _ _ _)
        (wordAt?_switch2 hfill _ _ _ _ _) (by omega)
  | lookupSwitch fill otherwise pairs =>
      obtain ⟨hfill, hpairs⟩ := h
      have hstart := switchStart_eq hfill
      have hcode : (Form.lookupSwitch fill otherwise pairs).bytes ++ rest =
          0xAB :: (fill ++ (BigEndian.bytes32 otherwise ++
            (BigEndian.bytes32 pairs.length.toUInt32 ++ ((pairs.flatMap fun p =>
              BigEndian.bytes32 p.1 ++ BigEndian.bytes32 p.2) ++ rest)))) := by
        simp only [Form.bytes, List.append_assoc, List.cons_append]
      have hnumber := wordAt?_switch hfill 0xAB otherwise pairs.length.toUInt32
        ((pairs.flatMap fun p => BigEndian.bytes32 p.1 ++ BigEndian.bytes32 p.2) ++ rest)
      have hlength : (Form.lookupSwitch fill otherwise pairs).bytes.length =
          switchStart pc + 8 + (pairs.length : Int).toNat * 8 := by
        simp only [Form.bytes, List.length_cons, List.length_append, BigEndian.length_bytes32,
          length_pairs]
        omega
      rw [toInt_ofNat_of_lt hpairs] at hnumber
      rw [hcode, hlength]
      exact .lookupSwitch 0xAB _ pairs.length rfl hnumber (by omega)

/-- **An instruction that may stand at a place has its own length there.** -/
theorem lengthAt_bytes {pc : Nat} {form : Form} (h : form.Fits pc) (rest : Bytes) :
    lengthAt pc (form.bytes ++ rest) = .ok form.bytes.length := by
  rw [lengthAt_ok, announcedLength_eq_ok_iff, List.length_append]
  exact ⟨announces_bytes h rest, Nat.le_add_right _ _⟩

/-! ## 2. Calls -/

/-- The call that an instruction is, if it is one; it stands at an offset of the file. -/
def Form.call? (offset : Nat) : Form → Option Code.CallBytes
  | plain opcode (a :: b :: _) =>
    if Code.isCall opcode then some ⟨offset, opcode, BigEndian.word16 a b⟩ else none
  | _ => none

theorem Form.call?_of_not_isCall {opcode : UInt8} (h : Code.isCall opcode = false) (offset : Nat)
    (operands : Bytes) : Form.call? offset (.plain opcode operands) = none := by
  unfold Form.call?
  split
  · rename_i heq
    cases heq
    rw [h]
    rfl
  · rfl

/-- A call is written with the number of a constant in front of its operands. -/
theorem Form.call?_bytes16 {opcode : UInt8} (h : Code.isCall opcode = true) (offset : Nat)
    (index : UInt16) (rest : Bytes) :
    Form.call? offset (.plain opcode (BigEndian.bytes16 index ++ rest)) =
      some ⟨offset, opcode, index⟩ := by
  show (if Code.isCall opcode then some (Code.CallBytes.mk offset opcode _) else none) = _
  rw [if_pos h, BigEndian.word16_bytes16]

/-- **The call that an instruction is found to be is the one it is.** -/
theorem callAt?_bytes {pc : Nat} {form : Form} (h : form.Fits pc) (offset : Nat) (rest : Bytes) :
    Code.callAt? offset (form.bytes ++ rest) = form.call? offset := by
  cases form with
  | plain opcode operands =>
      by_cases hcall : Code.isCall opcode = true
      · have hlength := lengthAt_bytes h []
        rw [List.append_nil] at hlength
        obtain ⟨a, b, y, rfl⟩ := Code.exists_of_isCall hcall hlength
        rw [Form.call?, if_pos hcall]
        exact Code.callAt?_of_isCall hcall offset a b (y ++ rest)
      · have hcall : Code.isCall opcode = false := by simpa using hcall
        rw [Form.call?_of_not_isCall hcall]
        exact Code.callAt?_of_not_isCall hcall offset (operands ++ rest)
  | wideLocal | wideIncrement | tableSwitch | lookupSwitch =>
      exact Code.callAt?_of_not_isCall rfl offset _

/-- The calls among instructions, the first instruction at `pc` of code that starts at an offset of
    the file. -/
def callsOf (start pc : Nat) : List Form → List Code.CallBytes
  | [] => []
  | form :: rest =>
    (form.call? (start + pc)).toList ++ callsOf start (pc + form.bytes.length) rest

/-- Stepping through assembled code finds the calls of its instructions, one by one. -/
theorem callsFrom_codeOf {pc : Nat} {forms : List Form} (h : Assembled pc forms) (start : Nat)
    (acc : List Code.CallBytes) :
    Code.callsFrom start pc acc (codeOf forms) = .ok ((callsOf start pc forms).reverse ++ acc) := by
  induction h generalizing acc with
  | nil =>
      rw [codeOf, List.flatMap_nil, Code.callsFrom]
      rfl
  | @cons pc form rest hfits _ ih =>
      have hlength := lengthAt_bytes hfits (codeOf rest)
      have hcall := callAt?_bytes hfits (start + pc) (codeOf rest)
      rw [codeOf, List.flatMap_cons, ← codeOf]
      cases hx : form.bytes with
      | nil => exact absurd hx form.bytes_ne_nil
      | cons op x =>
          have hn : form.bytes.length = x.length + 1 := by rw [hx, List.length_cons]
          rw [hx, List.cons_append] at hlength hcall
          rw [List.cons_append, Code.callsFrom, hlength]
          simp only [List.length_cons, Nat.add_sub_cancel, List.drop_left]
          rw [hcall, ← hn, ih, callsOf, List.reverse_append]
          cases form.call? (start + pc) <;> simp

/-- **The calls of assembled code are those of its instructions**, in order. -/
theorem calls_codeOf {forms : List Form} (h : Assembled 0 forms) (start : Nat) :
    Code.calls start (codeOf forms) = .ok (callsOf start 0 forms) := by
  rw [Code.calls, callsFrom_codeOf h]
  simp only [List.append_nil, List.reverse_reverse]

end ClassAccess.Instruction
