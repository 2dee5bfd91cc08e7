import ClassAccess.Instruction
import ClassAccess.Proofs.Reading.Words

/-!
# Edits and slots

An edit gives new contents to some bytes of a file without moving any. The places it may change are
slots: the two bytes of a word, or the byte of an opcode.

* `Edit.apply` -- bytes with an edit made in them; `Edit.word` -- a word with an edit made in it;
* `Slot.Ascend` -- slots that stand in order in a stretch of a file, **none reaching into another**;
* `Edit.Respects` -- an edit that keeps, in a stretch of a file, to the slots of that stretch, and
  puts into the slot of an opcode only what is as long as what was there.
-/

namespace ClassAccess

/-! ## 1. Edits -/

/-- What becomes of the bytes of a file, offset by offset. -/
abbrev Edit := Nat → UInt8 → UInt8

namespace Edit

/-- Bytes that start at an offset, edited. -/
def apply (E : Edit) : Nat → Bytes → Bytes
  | _, [] => []
  | offset, b :: rest => E offset b :: apply E (offset + 1) rest

/-- A word that starts at an offset, edited. -/
def word (E : Edit) (offset : Nat) (w : UInt16) : UInt16 :=
  BigEndian.word16 (E offset (w >>> 8).toUInt8) (E (offset + 1) w.toUInt8)

/-- The bytes from `lo` up to `hi` stay as they are. -/
def Quiet (E : Edit) (lo hi : Nat) : Prop := ∀ i, lo ≤ i → i < hi → ∀ b, E i b = b

variable {E : Edit}

@[simp] theorem apply_nil (offset : Nat) : E.apply offset [] = [] := rfl

@[simp] theorem apply_cons (offset : Nat) (b : UInt8) (x : Bytes) :
    E.apply offset (b :: x) = E offset b :: E.apply (offset + 1) x := rfl

@[simp] theorem length_apply (offset : Nat) (x : Bytes) :
    (E.apply offset x).length = x.length := by
  induction x generalizing offset with
  | nil => rfl
  | cons b x ih => simp [ih]

theorem apply_append (offset : Nat) (x y : Bytes) :
    E.apply offset (x ++ y) = E.apply offset x ++ E.apply (offset + x.length) y := by
  induction x generalizing offset with
  | nil => simp
  | cons b x ih =>
      simp only [List.cons_append, apply_cons, ih, List.length_cons]
      rw [Nat.add_right_comm, Nat.add_assoc]

theorem drop_apply (offset n : Nat) (x : Bytes) :
    (E.apply offset x).drop n = E.apply (offset + n) (x.drop n) := by
  induction n generalizing offset x with
  | zero => rfl
  | succ n ih =>
      cases x with
      | nil => rfl
      | cons b x =>
          rw [apply_cons, List.drop_succ_cons, List.drop_succ_cons, ih, Nat.add_assoc,
            Nat.add_comm 1 n]

theorem word_word16 (offset : Nat) (a b : UInt8) :
    E.word offset (BigEndian.word16 a b) = BigEndian.word16 (E offset a) (E (offset + 1) b) := by
  have h := BigEndian.bytes16_word16 a b
  simp only [BigEndian.bytes16, List.cons.injEq, and_true] at h
  rw [word, h.1, h.2]

theorem Quiet.mono {lo hi lo' hi' : Nat} (h : E.Quiet lo hi) (hlo : lo ≤ lo') (hhi : hi' ≤ hi) :
    E.Quiet lo' hi' :=
  fun i h1 h2 => h i (Nat.le_trans hlo h1) (Nat.lt_of_lt_of_le h2 hhi)

/-- **Where an edit is quiet it changes nothing.** -/
theorem Quiet.apply_eq {offset : Nat} {x : Bytes} (h : E.Quiet offset (offset + x.length)) :
    E.apply offset x = x := by
  induction x generalizing offset with
  | nil => rfl
  | cons b x ih =>
      simp only [List.length_cons] at h
      rw [apply_cons, h offset (by omega) (by omega), ih (h.mono (by omega) (by omega))]

theorem Quiet.word_eq {offset : Nat} (h : E.Quiet offset (offset + 2)) (w : UInt16) :
    E.word offset w = w := by
  rw [word, h offset (by omega) (by omega), h (offset + 1) (by omega) (by omega),
    BigEndian.word16_bytes16]

end Edit

/-! ## 2. Slots -/

/-- A place of a file that an edit may change: a word, or an opcode, told with what stands there. -/
inductive Slot
  | word (offset : Nat)
  | opcode (offset : Nat) (before : UInt8)
  deriving DecidableEq, Repr

namespace Slot

/-- The offset of the first byte. -/
def offset : Slot → Nat
  | word offset => offset
  | opcode offset _ => offset

/-- The number of bytes. -/
def width : Slot → Nat
  | word _ => 2
  | opcode _ _ => 1

/-- The offset behind the last byte. -/
def finish (s : Slot) : Nat := s.offset + s.width

/-- Whether a byte belongs to a slot. -/
def Covers (s : Slot) (i : Nat) : Prop := s.offset ≤ i ∧ i < s.finish

@[simp] theorem finish_opcode (o : Nat) (op : UInt8) : (opcode o op).finish = o + 1 := rfl

theorem covers_offset (s : Slot) : s.Covers s.offset := by
  refine ⟨Nat.le_refl _, ?_⟩
  cases s with
  | word o => exact Nat.lt_add_of_pos_right Nat.zero_lt_two
  | opcode o op => exact Nat.lt_succ_self o

/-- Slots stand in order between `lo` and `hi`, each behind the end of the one before. -/
def Ascend (lo hi : Nat) : List Slot → Prop
  | [] => lo ≤ hi
  | s :: rest => lo ≤ s.offset ∧ Ascend s.finish hi rest

theorem offset_le_finish (s : Slot) : s.offset ≤ s.finish := Nat.le_add_right _ _

theorem Ascend.le {lo hi : Nat} {slots : List Slot} (h : Ascend lo hi slots) : lo ≤ hi := by
  induction slots generalizing lo with
  | nil => exact h
  | cons s rest ih =>
      have h1 := ih h.2
      have h2 := s.offset_le_finish
      have h3 := h.1
      omega

theorem Ascend.mono {lo hi lo' hi' : Nat} {slots : List Slot} (h : Ascend lo hi slots)
    (hlo : lo' ≤ lo) (hhi : hi ≤ hi') : Ascend lo' hi' slots := by
  induction slots generalizing lo lo' with
  | nil =>
      have h' : lo ≤ hi := h
      exact Nat.le_trans hlo (Nat.le_trans h' hhi)
  | cons s rest ih => exact ⟨Nat.le_trans hlo h.1, ih h.2 (Nat.le_refl _)⟩

theorem Ascend.append {lo mid hi : Nat} {x y : List Slot} (hx : Ascend lo mid x)
    (hy : Ascend mid hi y) : Ascend lo hi (x ++ y) := by
  induction x generalizing lo with
  | nil => exact hy.mono hx (Nat.le_refl _)
  | cons s rest ih => exact ⟨hx.1, ih hx.2⟩

theorem Ascend.bounds {lo hi : Nat} {slots : List Slot} (h : Ascend lo hi slots) {s : Slot}
    (hs : s ∈ slots) : lo ≤ s.offset ∧ s.finish ≤ hi := by
  induction slots generalizing lo with
  | nil => exact absurd hs List.not_mem_nil
  | cons s' rest ih =>
      rcases List.mem_cons.1 hs with rfl | hs
      · exact ⟨h.1, h.2.le⟩
      · have h1 := ih h.2 hs
        have h2 := s'.offset_le_finish
        have h3 := h.1
        omega

/-- Two slots that share no byte. -/
def Apart (s t : Slot) : Prop := s.finish ≤ t.offset ∨ t.finish ≤ s.offset

theorem Apart.symm {s t : Slot} (h : s.Apart t) : t.Apart s := Or.symm h

instance : Std.Symm Apart := ⟨fun _ _ => Apart.symm⟩

theorem Apart.offset_ne {s t : Slot} (h : s.Apart t) : s.offset ≠ t.offset := by
  have hs := s.covers_offset.2
  have ht := t.covers_offset.2
  unfold Apart at h
  omega

theorem Ascend.pairwise {lo hi : Nat} {slots : List Slot} (h : Ascend lo hi slots) :
    slots.Pairwise Apart := by
  induction slots generalizing lo with
  | nil => exact .nil
  | cons s rest ih =>
      exact List.pairwise_cons.2 ⟨fun t ht => .inl (h.2.bounds ht).1, ih h.2⟩

end Slot

/-! ## 3. Edits that keep to slots -/

/-- Whether an opcode is that of a call that is followed by a constant number and nothing else. -/
def isPlainCall (op : UInt8) : Bool := Instruction.within 0xB6 0xB8 op

namespace Edit

/-- What stands in a slot afterwards is as long as what stood there. -/
def Fits (E : Edit) : Slot → Prop
  | .word _ => True
  | .opcode offset before =>
    E offset before = before ∨ isPlainCall before ∧ isPlainCall (E offset before)

/-- The edit changes no byte from `lo` up to `hi` but those of the slots, and fits the slots. -/
structure Respects (E : Edit) (slots : List Slot) (lo hi : Nat) : Prop where
  quiet : ∀ i, lo ≤ i → i < hi → (∀ s ∈ slots, ¬ s.Covers i) → ∀ b, E i b = b
  fits : ∀ s ∈ slots, E.Fits s

variable {E : Edit} {lo mid hi : Nat} {x y : List Slot}

theorem Respects.quiet_of_nil (h : E.Respects [] lo hi) : E.Quiet lo hi :=
  fun i h1 h2 => h.quiet i h1 h2 fun _ hs => absurd hs List.not_mem_nil

theorem Respects.narrow {lo' hi' : Nat} (h : E.Respects x lo hi) (hlo : lo ≤ lo') (hhi : hi' ≤ hi) :
    E.Respects x lo' hi' :=
  ⟨fun i h1 h2 => h.quiet i (by omega) (by omega), h.fits⟩

theorem Respects.left (h : E.Respects (x ++ y) lo hi) (hy : Slot.Ascend mid hi y) :
    E.Respects x lo mid := by
  refine ⟨fun i h1 h2 hx => ?_, fun s hs => h.fits s (List.mem_append_left _ hs)⟩
  refine h.quiet i h1 (Nat.lt_of_lt_of_le h2 hy.le) fun s hs => ?_
  rcases List.mem_append.1 hs with hs | hs
  · exact hx s hs
  · have h3 := (hy.bounds hs).1
    exact fun hc => absurd hc.1 (by omega)

theorem Respects.right (h : E.Respects (x ++ y) lo hi) (hx : Slot.Ascend lo mid x) :
    E.Respects y mid hi := by
  refine ⟨fun i h1 h2 hy => ?_, fun s hs => h.fits s (List.mem_append_right _ hs)⟩
  refine h.quiet i (Nat.le_trans hx.le h1) h2 fun s hs => ?_
  rcases List.mem_append.1 hs with hs | hs
  · have h3 := (hx.bounds hs).2
    exact fun hc => absurd hc.2 (by omega)
  · exact hy s hs

end Edit

end ClassAccess
