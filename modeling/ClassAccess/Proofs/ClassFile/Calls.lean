import ClassAccess.Proofs.ClassFile.Instruction

/-!
# The calls of edited code

The opcode of a direct call is a slot. When the edit puts the opcode of another plain call there,
stepping through the code finds the same instructions at the same places:

* `CallBytes.slots`, `CallBytes.edited` -- the slot of a call, and the call with the edit made;
* `callAt?_edited`, `lengthAt_edited` -- one instruction of edited code; `callsFrom_apply_cons` --
  one step through it;
* `calls_edited` -- **the calls of edited code are the edited calls**, and their slots stand in
  order within the code.
-/

namespace ClassAccess.Code

open Instruction

/-! ## 1. One call -/

/-- The opcode of a call, unless the call is a dynamic one. -/
def CallBytes.slots (c : CallBytes) : List Slot :=
  if c.opcode = dynamicOpcode then [] else [.opcode c.offset c.opcode]

/-- A call after an edit, in a file that moved. -/
def CallBytes.edited (E : Edit) (k : Nat) (c : CallBytes) : CallBytes :=
  ⟨c.offset + k, if c.opcode = dynamicOpcode then c.opcode else E c.offset c.opcode, c.index⟩

/-- The slots of the call that some bytes start with. -/
def slotsAt (o : Nat) (code : Bytes) : List Slot := (callAt? o code).toList.flatMap CallBytes.slots

theorem callAt?_of_not_isCall {op : UInt8} (h : Code.isCall op = false) (o : Nat) (rest : Bytes) :
    callAt? o (op :: rest) = none := by
  unfold callAt?
  split
  · rename_i heq
    cases heq
    rw [h]
    rfl
  · rfl

theorem callAt?_of_isCall {op : UInt8} (h : Code.isCall op = true) (o : Nat) (a b : UInt8)
    (y : Bytes) : callAt? o (op :: a :: b :: y) = some ⟨o, op, BigEndian.word16 a b⟩ := by
  unfold callAt?
  simp only [h, if_true]

/-- The bytes that start with a call have three bytes at least. -/
theorem exists_of_isCall {op : UInt8} (h : Code.isCall op = true) {pc n : Nat} {rest : Bytes}
    (hn : lengthAt pc (op :: rest) = .ok n) : ∃ a b y, rest = a :: b :: y := by
  have h3 := length_of_call h hn
  have hle := (lengthAt_ok.1 hn).2
  match rest with
  | a :: b :: y => exact ⟨a, b, y, rfl⟩
  | [] | [_] =>
      simp only [List.length_cons, List.length_nil] at hle
      omega

/-- The slot of an instruction is its first byte, if it has one. -/
theorem slotsAt_cases (o : Nat) (op : UInt8) (rest : Bytes) :
    slotsAt o (op :: rest) = [] ∨ slotsAt o (op :: rest) = [.opcode o op] := by
  unfold slotsAt callAt?
  split
  · rename_i heq
    cases heq
    split
    · simp only [Option.toList_some, List.flatMap_cons, List.flatMap_nil, CallBytes.slots,
        List.append_nil]
      split
      · exact .inl rfl
      · exact .inr rfl
    · exact .inl rfl
  · exact .inl rfl

theorem slotsAt_ascend {pc o n : Nat} {op : UInt8} {rest : Bytes}
    (hn : lengthAt pc (op :: rest) = .ok n) : Slot.Ascend o (o + n) (slotsAt o (op :: rest)) := by
  have hpos := lengthAt_pos hn
  rcases slotsAt_cases o op rest with h | h
  · rw [h]
    exact Nat.le_add_right _ _
  · rw [h]
    exact ⟨Nat.le_refl _, Nat.add_le_add_left hpos o⟩

/-! ## 2. One instruction of edited code -/

variable {E : Edit} {k : Nat}

/-- An edit leaves the operands of an instruction alone. Its opcode it leaves alone too, or it turns
    one plain call into another one. -/
theorem edited_cases {pc o n : Nat} {op : UInt8} {rest : Bytes}
    (hn : lengthAt pc (op :: rest) = .ok n)
    (hE : E.Respects (slotsAt o (op :: rest)) o (o + n)) :
    E.Quiet (o + 1) (o + n) ∧
      (E o op = op ∨ isPlainCall op = true ∧ isPlainCall (E o op) = true) := by
  have hpos := lengthAt_pos hn
  rcases slotsAt_cases o op rest with hs | hs
  · rw [hs] at hE
    have hq := hE.quiet_of_nil
    exact ⟨hq.mono (by omega) (Nat.le_refl _), .inl (hq o (Nat.le_refl _) (by omega) op)⟩
  · rw [hs] at hE
    refine ⟨fun i h1 h2 => hE.quiet i (by omega) h2 fun s hm => ?_,
      hE.fits _ (List.mem_singleton_self _)⟩
    rw [List.mem_singleton.1 hm]
    exact fun hc => absurd hc.2 (by rw [Slot.finish_opcode]; omega)

/-- The bytes of an instruction and those behind it, when the edit leaves the operands alone. -/
theorem apply_instruction {o n : Nat} {op : UInt8} {rest : Bytes} (hpos : 1 ≤ n)
    (hle : n ≤ (op :: rest).length) (hq : E.Quiet (o + 1) (o + n)) :
    E.apply o (op :: rest) =
      (E o op :: rest.take (n - 1)) ++ E.apply (o + n) (rest.drop (n - 1)) := by
  have hlen : (rest.take (n - 1)).length = n - 1 := by
    rw [List.length_take]
    simp only [List.length_cons] at hle
    omega
  rw [Edit.apply_cons, ← List.take_append_drop (n - 1) rest, Edit.apply_append, hlen,
    Edit.Quiet.apply_eq (by rw [hlen]; exact hq.mono (Nat.le_refl _) (by omega)),
    List.take_append_drop, show o + 1 + (n - 1) = o + n by omega]
  rfl

/-- **An instruction of edited code is as long as before.** -/
theorem lengthAt_edited {pc o n : Nat} {op : UInt8} {rest : Bytes}
    (hn : lengthAt pc (op :: rest) = .ok n)
    (hE : E.Respects (slotsAt o (op :: rest)) o (o + n)) :
    lengthAt pc (E.apply o (op :: rest)) = .ok n := by
  have hpos := lengthAt_pos hn
  have hle := (lengthAt_ok.1 hn).2
  obtain ⟨hq, hsame | ⟨hp, hp'⟩⟩ := edited_cases hn hE
  · have hlen : (op :: rest.take (n - 1)).length = n := by
      simp only [List.length_cons, List.length_take] at hle ⊢
      omega
    have happ := lengthAt_append (x := op :: rest.take (n - 1))
      (y := rest.drop (n - 1)) (by rw [List.cons_append, List.take_append_drop, hlen]; exact hn)
      (E.apply (o + n) (rest.drop (n - 1)))
    rw [apply_instruction hpos hle hq, hsame, happ, hlen]
  · obtain ⟨a, b, y, rfl⟩ := exists_of_isCall (isCall_of_isPlainCall hp).1 hn
    rw [← hn, lengthAt_plainCall hp, Edit.apply_cons, Edit.apply_cons, Edit.apply_cons,
      lengthAt_plainCall hp']

/-- **A call in edited code is the edited call.** -/
theorem callAt?_edited {pc o n : Nat} {op : UInt8} {rest : Bytes}
    (hn : lengthAt pc (op :: rest) = .ok n)
    (hE : E.Respects (slotsAt o (op :: rest)) o (o + n)) :
    callAt? (o + k) (E.apply o (op :: rest)) =
      (callAt? o (op :: rest)).map (CallBytes.edited E k) := by
  obtain ⟨hq, hcases⟩ := edited_cases hn hE
  cases hc : Code.isCall op with
  | false =>
      rcases hcases with hsame | ⟨hp, _⟩
      · rw [Edit.apply_cons, hsame, callAt?_of_not_isCall hc, callAt?_of_not_isCall hc]
        rfl
      · rw [(isCall_of_isPlainCall hp).1] at hc
        cases hc
  | true =>
      obtain ⟨a, b, y, rfl⟩ := exists_of_isCall hc hn
      have h3 := length_of_call hc hn
      have hop : Code.isCall (E o op) = true ∧ (op = dynamicOpcode → E o op = op) := by
        rcases hcases with hsame | ⟨hp, hp'⟩
        · exact ⟨by rw [hsame]; exact hc, fun _ => hsame⟩
        · exact ⟨(isCall_of_isPlainCall hp').1,
            fun hd => absurd hd (isCall_of_isPlainCall hp).2⟩
      rw [callAt?_of_isCall hc, Edit.apply_cons, Edit.apply_cons, Edit.apply_cons,
        hq (o + 1) (Nat.le_refl _) (by omega), hq (o + 1 + 1) (by omega) (by omega),
        callAt?_of_isCall hop.1]
      simp only [Option.map_some, CallBytes.edited]
      split
      · rename_i hd
        rw [hop.2 hd]
      · rfl

/-! ## 3. All calls -/

/-- One step through edited code is the step through the code, made in the edited bytes. -/
theorem callsFrom_apply_cons {start pc n : Nat} {op : UInt8} {rest : Bytes}
    (hn : lengthAt pc (op :: rest) = .ok n)
    (hE : E.Respects (slotsAt (start + pc) (op :: rest)) (start + pc) (start + pc + n))
    (acc : List CallBytes) :
    callsFrom (start + k) pc acc (E.apply (start + pc) (op :: rest)) =
      callsFrom (start + k) (pc + n)
        (((callAt? (start + pc) (op :: rest)).map (CallBytes.edited E k)).toList ++ acc)
        (E.apply (start + (pc + n)) (rest.drop (n - 1))) := by
  have hpos := lengthAt_pos hn
  have hlen := lengthAt_edited hn hE
  have hcall := callAt?_edited (k := k) hn hE
  have hdrop : (E.apply (start + pc + 1) rest).drop (n - 1) =
      E.apply (start + (pc + n)) (rest.drop (n - 1)) := by
    rw [Edit.drop_apply]
    congr 1
    omega
  rw [Edit.apply_cons] at hlen hcall ⊢
  rw [callsFrom, hlen]
  simp only
  rw [hdrop, Nat.add_right_comm, hcall]

/-- Stepping through code and through the edited code at once. `new` holds the calls that are still
    to come, in order. -/
theorem callsFrom_edited {start pc : Nat} {acc found : List CallBytes} {code : Bytes}
    (h : callsFrom start pc acc code = .ok found) :
    ∃ new : List CallBytes, found = new.reverse ++ acc ∧
      Slot.Ascend (start + pc) (start + pc + code.length) (new.flatMap CallBytes.slots) ∧
      (E.Respects (new.flatMap CallBytes.slots) (start + pc) (start + pc + code.length) →
        ∀ acc', callsFrom (start + k) pc acc' (E.apply (start + pc) code) =
          .ok ((new.map (CallBytes.edited E k)).reverse ++ acc')) := by
  fun_induction callsFrom start pc acc code with
  | case1 pc acc =>
      cases h
      refine ⟨[], rfl, Nat.le_refl _, fun _ acc' => ?_⟩
      rw [Edit.apply_nil, callsFrom]
      rfl
  | case2 pc acc op rest fault hn => cases h
  | case3 pc acc op rest n hn ih =>
      obtain ⟨new, hfound, hasc, hcalls⟩ := ih h
      have hpos := lengthAt_pos hn
      have hle := (lengthAt_ok.1 hn).2
      have hfin : start + (pc + n) + (rest.drop (n - 1)).length =
          start + pc + (op :: rest).length := by
        simp only [List.length_drop, List.length_cons] at hle ⊢
        omega
      have hasc₁ : Slot.Ascend (start + pc) (start + (pc + n))
          (slotsAt (start + pc) (op :: rest)) := Nat.add_assoc start pc n ▸ slotsAt_ascend hn
      rw [hfin] at hasc hcalls
      refine ⟨(callAt? (start + pc) (op :: rest)).toList ++ new, ?_, ?_, fun hE acc' => ?_⟩
      · rw [hfound, List.reverse_append, List.append_assoc]
        cases callAt? (start + pc) (op :: rest) <;> rfl
      · rw [List.flatMap_append]
        exact hasc₁.append hasc
      · rw [List.flatMap_append] at hE
        have hE₁ := hE.left hasc
        rw [← Nat.add_assoc] at hE₁
        rw [callsFrom_apply_cons hn hE₁, hcalls (hE.right hasc₁)]
        cases callAt? (start + pc) (op :: rest) with
        | none => rfl
        | some c => simp

/-- **The calls of edited code are the edited calls.** Their slots stand in order in the code. -/
theorem calls_edited {start : Nat} {found : List CallBytes} {code : Bytes}
    (h : calls start code = .ok found) :
    Slot.Ascend start (start + code.length) (found.flatMap CallBytes.slots) ∧
      (E.Respects (found.flatMap CallBytes.slots) start (start + code.length) →
        calls (start + k) (E.apply start code) =
          .ok (found.map (CallBytes.edited E k))) := by
  unfold calls at h ⊢
  split at h
  · rename_i new hnew
    cases h
    obtain ⟨found, rfl, hasc, hcalls⟩ := callsFrom_edited (k := k) hnew
    rw [Nat.add_zero] at hasc hcalls
    rw [List.append_nil, List.reverse_reverse]
    refine ⟨hasc, fun hE => ?_⟩
    rw [hcalls hE [], List.append_nil]
    simp only [List.reverse_reverse]
  · cases h

end ClassAccess.Code
