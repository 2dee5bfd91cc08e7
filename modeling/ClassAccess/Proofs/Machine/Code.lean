import ClassAccess.Machine.Code
import ClassAccess.Proofs.ClassFile.Calls
import ClassAccess.Proofs.Machine.Agreement

/-!
# Code stepped through without a trap

* `lengthAt_eq` -- **the length of an instruction at any place**, whether or not there is code;
* `calls_eq` -- **the calls of some code**: behind the opcode of a call stand the bytes of its
  operand, since its length was found first, and each step goes on by a byte at least.
-/

namespace ClassAccess.Machine

open Instruction

variable {code rest : Bytes} {pc n : Nat} {op : UInt8}

/-! ## 1. Places of the code -/

/-- What stands from a place on tells each element behind it. -/
theorem getElem?_of_drop {α : Type} {row rest : List α} {i : Nat} (h : row.drop i = rest)
    (j : Nat) : row[i + j]? = rest[j]? := by
  rw [← h, List.getElem?_drop]

theorem lt_of_drop {α : Type} {row rest : List α} {a : α} {i : Nat} (h : row.drop i = a :: rest) :
    i + rest.length + 1 = row.length := by
  have hlen := congrArg List.length h
  rw [List.length_drop, List.length_cons] at hlen
  omega

/-- What is left behind the first elements of what stands from a place on. -/
theorem drop_of_drop {α : Type} {row rest : List α} {a : α} {i n : Nat}
    (h : row.drop i = a :: rest) (hn : 1 ≤ n) : rest.drop (n - 1) = row.drop (i + n) := by
  rw [← List.drop_drop, h, show n = n - 1 + 1 by omega, List.drop_succ_cons, Nat.add_sub_cancel]

section Words

variable [Words]

/-- The operands of a switch start where the instruction says. -/
theorem switchOperands_eq (h : pc + 4 < words) :
    switchOperands pc = done (pc + switchStart pc) := by
  unfold switchOperands
  rw [sum_eq h]
  show done _ = done _
  unfold switchStart
  rw [show (pc + 4) / 4 * 4 = pc + (4 - pc % 4) by omega]

/-- A signed word that is there. -/
theorem signedAt_of_some {v : Int} (hfit : pc + n + 4 < words)
    (h : wordAt? (code.drop pc) n = some v) : signedAt code (pc + n) pc = done v := by
  unfold wordAt? at h
  rw [List.drop_drop] at h
  split at h
  · rename_i a b c d rest hdrop
    cases h
    have hlen := lt_of_drop hdrop
    simp only [List.length_cons] at hlen
    have htake : (code.take (pc + n + 4)).drop (pc + n) = [a, b, c, d] := by
      rw [List.drop_take, hdrop, Nat.add_sub_cancel_left]
      rfl
    unfold signedAt
    rw [sum_eq hfit, done_bind, if_pos (by omega), slice_eq (by omega) (by omega), htake]
    rfl
  · cases h

/-- A signed word that is not there. -/
theorem signedAt_of_none (hfit : pc + n + 4 < words) (h : wordAt? (code.drop pc) n = none) :
    signedAt code (pc + n) pc = failed (.truncatedInstruction pc) := by
  unfold wordAt? at h
  rw [List.drop_drop] at h
  split at h
  · cases h
  · rename_i hdrop
    have hlen : code.length < pc + n + 4 := by
      refine Nat.lt_of_not_le fun hle => ?_
      have h4 : 4 ≤ (code.drop (pc + n)).length := by
        rw [List.length_drop]
        omega
      match hd : code.drop (pc + n) with
      | a :: b :: c :: d :: rest => exact hdrop a b c d rest hd
      | [] | [_] | [_, _] | [_, _, _] =>
          rw [hd] at h4
          simp at h4
    unfold signedAt
    rw [sum_eq hfit, done_bind, if_neg (by omega)]

end Words

theorem wordAt?_bounds {v : Int} (h : wordAt? code n = some v) :
    -0x80000000 ≤ v ∧ v < 0x80000000 := by
  unfold wordAt? at h
  split at h
  · cases h
    exact ⟨Int32.le_toInt _, Int32.toInt_lt _⟩
  · cases h

/-! ## 2. Lengths -/

theorem fixed_le {n : Nat} (h : Shape.ofOpcode op = some (.fixed n)) : n ≤ 5 := by
  have hall : ∀ k : Fin 256, Shape.ofOpcode (UInt8.ofFin k) ∈
      [none, some .wide, some .tableSwitch, some .lookupSwitch, some (.fixed 1), some (.fixed 2),
        some (.fixed 3), some (.fixed 4), some (.fixed 5)] := by
    decide +kernel
  have hop := hall op.toFin
  rw [show UInt8.ofFin op.toFin = op from rfl, h] at hop
  simp only [List.mem_cons, reduceCtorEq, Option.some.injEq, Shape.fixed.injEq, List.not_mem_nil,
    or_false, false_or] at hop
  omega

theorem wideLength?_le {n : Nat} (h : wideLength? op = some n) : n ≤ 6 := by
  simp only [wideLength?] at h
  split_ifs at h <;> cases h <;> decide

/-- What an instruction announces is far from the largest word. -/
theorem announcedLength_lt {n : Nat} (h : announcedLength pc code = .ok n) : n < 0x800000000 := by
  have hstart : switchStart pc ≤ 4 := Nat.sub_le _ _
  cases announces_of_ok h with
  | fixed op rest _ hshape =>
      have := fixed_le hshape
      omega
  | wide op widened rest _ hshape hlength =>
      have := wideLength?_le hlength
      omega
  | tableSwitch op rest low high hshape hlow hhigh horder =>
      have hl := wordAt?_bounds hlow
      have hh := wordAt?_bounds hhigh
      omega
  | lookupSwitch op rest pairs hshape hpairs horder =>
      have hp := wordAt?_bounds hpairs
      omega

variable [Words]

/-- The bounds of a table are words of four bytes, so what is made of them fits. -/
theorem announced_tableSwitch (hfits : Fits code) (h : code.drop pc = op :: rest)
    (hs : Shape.ofOpcode op = some .tableSwitch) :
    announced code pc op = of (announcedLength pc (op :: rest)) := by
  have hlt := lt_of_drop h
  have hstart : switchStart pc ≤ 4 := Nat.sub_le _ _
  simp only [announced, announcedLength, hs]
  rw [switchOperands_eq (hfits.lt_words (by omega)), done_bind, sum_eq (hfits.lt_words (by omega)),
    done_bind, sum_eq (hfits.lt_words (by omega)), Nat.add_assoc, Nat.add_assoc, ← h]
  cases hlow : wordAt? (code.drop pc) (switchStart pc + 4) with
  | none =>
      rw [signedAt_of_none (hfits.lt_words (by omega)) hlow]
      rfl
  | some low =>
      rw [signedAt_of_some (hfits.lt_words (by omega)) hlow, done_bind, done_bind]
      cases hhigh : wordAt? (code.drop pc) (switchStart pc + 8) with
      | none =>
          rw [signedAt_of_none (hfits.lt_words (by omega)) hhigh]
          rfl
      | some high =>
          have hl := wordAt?_bounds hlow
          have hh := wordAt?_bounds hhigh
          rw [signedAt_of_some (hfits.lt_words (by omega)) hhigh, done_bind]
          simp only
          split
          · rfl
          · rw [signed_eq (by omega), done_bind, signed_eq (by omega), done_bind,
              unsigned_eq (by omega), done_bind, difference_eq (by omega), done_bind,
              Nat.add_sub_cancel_left, sum_eq (hfits.lt_words (by omega)), done_bind,
              product_eq (hfits.lt_words (by omega)), done_bind, sum_eq (hfits.lt_words (by omega))]
            rfl

/-- The number of pairs is a word of four bytes too. -/
theorem announced_lookupSwitch (hfits : Fits code) (h : code.drop pc = op :: rest)
    (hs : Shape.ofOpcode op = some .lookupSwitch) :
    announced code pc op = of (announcedLength pc (op :: rest)) := by
  have hlt := lt_of_drop h
  have hstart : switchStart pc ≤ 4 := Nat.sub_le _ _
  simp only [announced, announcedLength, hs]
  rw [switchOperands_eq (hfits.lt_words (by omega)), done_bind, sum_eq (hfits.lt_words (by omega)),
    done_bind, Nat.add_assoc, ← h]
  cases hpairs : wordAt? (code.drop pc) (switchStart pc + 4) with
  | none =>
      rw [signedAt_of_none (hfits.lt_words (by omega)) hpairs]
      rfl
  | some pairs =>
      have hp := wordAt?_bounds hpairs
      rw [signedAt_of_some (hfits.lt_words (by omega)) hpairs, done_bind]
      simp only
      split
      · rfl
      · rw [difference_eq (by omega), done_bind, Nat.add_sub_cancel_left,
          sum_eq (hfits.lt_words (by omega)), done_bind, unsigned_eq (by omega), done_bind,
          product_eq (hfits.lt_words (by omega)), done_bind, sum_eq (hfits.lt_words (by omega))]
        rfl

/-- What an instruction announces is found without a trap, shape by shape. -/
theorem announced_eq (hfits : Fits code) (h : code.drop pc = op :: rest) :
    announced code pc op = of (announcedLength pc (op :: rest)) := by
  cases hs : Shape.ofOpcode op with
  | none =>
      simp only [announced, announcedLength, hs]
      rfl
  | some shape =>
      cases shape with
      | fixed n =>
          simp only [announced, announcedLength, hs]
          rfl
      | tableSwitch => exact announced_tableSwitch hfits h hs
      | lookupSwitch => exact announced_lookupSwitch hfits h hs
      | wide =>
          have hlt := lt_of_drop h
          simp only [announced, announcedLength, hs]
          rw [sum_eq (hfits.lt_words (by omega)), done_bind, getElem?_of_drop h 1]
          cases rest with
          | nil => rfl
          | cons widened rest =>
              simp only [List.getElem?_cons_succ, List.getElem?_cons_zero]
              cases wideLength? widened <;> rfl

/-- **The length of the instruction at any place is found without a trap.** -/
theorem lengthAt_eq (hfits : Fits code) (pc : Nat) :
    lengthAt code pc = of (Instruction.length code pc) := by
  unfold lengthAt Instruction.length Instruction.lengthAt
  cases hdrop : code.drop pc with
  | nil =>
      have hnone : code[pc]? = none := List.getElem?_eq_none (List.drop_eq_nil_iff.1 hdrop)
      simp only [hnone]
      rfl
  | cons op rest =>
      have hlt := lt_of_drop hdrop
      have hop : code[pc]? = some op := getElem?_of_drop hdrop 0
      simp only [hop]
      rw [announced_eq hfits hdrop]
      cases ha : announcedLength pc (op :: rest) with
      | error fault => rfl
      | ok n =>
          have hn := announcedLength_lt ha
          simp only [of, done_bind]
          rw [sum_eq (hfits.lt_words (by omega)), done_bind, List.length_take, List.length_cons]
          by_cases hle : code.length < pc + n
          · rw [if_pos hle, if_neg (by omega)]
          · rw [if_neg hle, if_pos (by omega)]
            rfl

/-! ## 3. Calls -/

/-- **Behind the opcode of a call stands its operand**, since the whole instruction is there. -/
theorem callAt_eq {start : Nat} (hstart : start + code.length < words)
    (h : code.drop pc = op :: rest) (hn : Instruction.lengthAt pc (op :: rest) = .ok n) :
    callAt start code pc = done (Code.callAt? (start + pc) (op :: rest)) := by
  have hlt := lt_of_drop h
  unfold callAt
  rw [nth_eq (i := pc) (getElem?_of_drop h 0), done_bind]
  cases hcall : Code.isCall op with
  | false =>
      rw [Code.callAt?_of_not_isCall hcall]
      rfl
  | true =>
      obtain ⟨a, b, y, rfl⟩ := Code.exists_of_isCall hcall hn
      simp only [List.length_cons] at hlt
      rw [Code.callAt?_of_isCall hcall, if_pos rfl, sum_eq (by omega), done_bind,
        sum_eq (by omega), done_bind, nth_eq (getElem?_of_drop h 1), done_bind,
        sum_eq (by omega), done_bind, nth_eq (getElem?_of_drop h 2), done_bind]
      rfl

-- without the bytes of its operand, a call is out of reach
example : @callAt .bits64 0 [0xB6] 0 = trapped (.element 1 1) := by decide

/-- The steps from a place on: as many turns as bytes are left are enough, since each instruction
    has a byte. -/
theorem callsFrom_eq {start : Nat} (hfits : Fits code) (hstart : start + code.length < words)
    {turns : Nat} (found : List Code.CallBytes) (hturns : code.length ≤ pc + turns) :
    callsFrom start code turns pc found = of (Code.callsFrom start pc found (code.drop pc)) := by
  induction turns generalizing pc found with
  | zero =>
      rw [List.drop_eq_nil_of_le (i := pc) hturns, Code.callsFrom, callsFrom, if_neg (by omega)]
      rfl
  | succ turns ih =>
      rw [callsFrom]
      cases hdrop : code.drop pc with
      | nil =>
          rw [Code.callsFrom, if_neg (Nat.not_lt.2 (List.drop_eq_nil_iff.1 hdrop))]
          rfl
      | cons op rest =>
          have hlt := lt_of_drop hdrop
          rw [Code.callsFrom, if_pos (by omega), lengthAt_eq hfits, Instruction.length, hdrop]
          cases hn : Instruction.lengthAt pc (op :: rest) with
          | error fault => rfl
          | ok n =>
              have hpos := lengthAt_pos hn
              have hle := (lengthAt_ok.1 hn).2
              rw [List.length_cons] at hle
              simp only [of, done_bind]
              rw [callAt_eq hstart hdrop hn, done_bind, sum_eq (by omega), done_bind,
                drop_of_drop hdrop hpos]
              exact ih _ (by omega)

/-- **The calls of some code are found without a trap.** -/
theorem calls_eq {start : Nat} (hfits : Fits code) (hstart : start + code.length < words) :
    calls start code = of (Code.calls start code) := by
  unfold calls Code.calls
  rw [callsFrom_eq hfits hstart [] (Nat.le_add_left _ _), List.drop_zero]
  cases Code.callsFrom start 0 [] code <;> rfl

end ClassAccess.Machine
