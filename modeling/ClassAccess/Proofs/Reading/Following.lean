import ClassAccess.Proofs.Reading.Edit
import ClassAccess.Reading

/-!
# Reading an edited file

A file is edited in its slots, and all of it moves by some number of bytes. What does reading give
then? Each step of reading is followed by a step on the edited file:

* `Reading.Replays` -- a stretch of a file, edited and moved, makes a step give a value;
* `Reading.Follows` -- **a step that follows another one**: wherever the one succeeds, the other one
  succeeds on the edited bytes, whatever comes behind them;
* `Reading.Copied` -- the same for steps that have no slots and so give the same value again;
* `Follows.seq`, `Follows.times`, `Follows.counted` -- steps put together follow steps put together.

The slots of a step depend on what it gives, as a table has a slot for each of its rows.
-/

namespace ClassAccess.Reading

variable {α β γ α' β' γ' : Type} {E : Edit} {k : Nat}

/-! ## 1. Runs -/

theorem exists_of_bind_ok {r : Reading α} {f : α → Reading β} {s t : Source} {b : β}
    (h : (r >>= f) s = .ok (b, t)) : ∃ a s', r s = .ok (a, s') ∧ f a s' = .ok (b, t) := by
  rw [run_bind] at h
  cases hr : r s with
  | error fault => rw [hr] at h; cases h
  | ok p => rw [hr] at h; exact ⟨p.1, p.2, rfl, h⟩

theorem bind_ok {r : Reading α} {f : α → Reading β} {s s' : Source} {a : α}
    (h : r s = .ok (a, s')) : (r >>= f) s = f a s' := by
  rw [run_bind, h]

theorem check_ok {result : Except Fault α} {s t : Source} {a : α}
    (h : check result s = .ok (a, t)) : result = .ok a ∧ s = t := by
  cases result with
  | error fault => cases h
  | ok b => cases h; exact ⟨rfl, rfl⟩

/-- The bytes between two sources, edited and moved by `k`, make the step `r` give `a`, as long
    as the edit keeps to the slots between the two. Nothing behind these bytes is looked at. -/
def Replays (E : Edit) (k : Nat) (s t : Source) (slots : List Slot) (r : Reading α) (a : α) :
    Prop :=
  ∃ x, s.rest = x ++ t.rest ∧ t.offset = s.offset + x.length ∧
    Slot.Ascend s.offset t.offset slots ∧
    (E.Respects slots s.offset t.offset → ∀ u,
      r ⟨s.offset + k, E.apply s.offset x ++ u⟩ = .ok (a, ⟨t.offset + k, u⟩))

theorem Replays.bind {s t v : Source} {slots slots' : List Slot} {r : Reading α}
    {f : α → Reading β} {a : α} {b : β} (hr : Replays E k s t slots r a)
    (hf : Replays E k t v slots' (f a) b) :
    Replays E k s v (slots ++ slots') (r >>= f) b := by
  obtain ⟨x, hx, hxo, hxs, hxr⟩ := hr
  obtain ⟨y, hy, hyo, hys, hyr⟩ := hf
  refine ⟨x ++ y, ?_, ?_, hxs.append hys, fun hE u => ?_⟩
  · rw [hx, hy, List.append_assoc]
  · rw [hyo, hxo, List.length_append, Nat.add_assoc]
  · rw [Edit.apply_append, List.append_assoc, ← hxo, bind_ok (hxr (hE.left hys) _)]
    exact hyr (hE.right hxs) u

theorem replays_pure (s : Source) (a : α) : Replays E k s s [] (pure a) a :=
  ⟨[], rfl, rfl, Nat.le_refl _, fun _ _ => rfl⟩

theorem replays_offset (s : Source) : Replays E k s s [] offset (s.offset + k) :=
  ⟨[], rfl, rfl, Nat.le_refl _, fun _ _ => rfl⟩

/-! ## 2. Steps that follow steps -/

/-- **The step `r'` follows `r`**: where `r` gives a value `a`, `r'` gives `g a` on the same bytes
    edited in the slots of `a`. -/
def Follows (E : Edit) (k : Nat) (r : Reading α) (r' : Reading α') (slots : α → List Slot)
    (g : α → α') : Prop :=
  ∀ s a t, r s = .ok (a, t) → Replays E k s t (slots a) r' (g a)

/-- A step without slots, which gives the same value again. -/
def Copied (E : Edit) (k : Nat) (r r' : Reading α) : Prop :=
  Follows E k r r' (fun _ => []) id

theorem copied_pure (a : α) : Copied E k (pure a) (pure a) := by
  intro s b t h
  cases h
  exact replays_pure s a

theorem copied_check {result result' : Except Fault α} (h : ∀ a, result = .ok a → result' = .ok a) :
    Copied E k (check result) (check result') := by
  intro s a t ha
  obtain ⟨hr, rfl⟩ := check_ok ha
  rw [h a hr]
  exact replays_pure s a

theorem byte_ok {s t : Source} {b : UInt8} (h : byte s = .ok (b, t)) :
    s.rest = b :: t.rest ∧ t.offset = s.offset + 1 := by
  unfold byte at h
  split at h
  · rename_i a rest hs
    cases h
    exact ⟨hs, rfl⟩
  · cases h

theorem copied_byte : Copied E k byte byte := by
  intro s b t h
  obtain ⟨hr, ho⟩ := byte_ok h
  refine ⟨[b], hr, ho, by rw [ho]; exact Nat.le_add_right _ _, fun hE u => ?_⟩
  rw [Edit.Quiet.apply_eq (ho ▸ hE.quiet_of_nil)]
  simp only [byte, List.cons_append, List.nil_append, ho, Nat.add_right_comm, id]

theorem word16_ok {s t : Source} {w : UInt16} (h : word16 s = .ok (w, t)) :
    ∃ a b, s.rest = a :: b :: t.rest ∧ t.offset = s.offset + 2 ∧ w = BigEndian.word16 a b := by
  unfold word16 at h
  split at h
  · rename_i a b rest hs
    cases h
    exact ⟨a, b, hs, rfl, rfl⟩
  · cases h

theorem word16_bytes16 (o : Nat) (w : UInt16) (u : Bytes) :
    word16 ⟨o, BigEndian.bytes16 w ++ u⟩ = .ok (w, ⟨o + 2, u⟩) := by
  show Except.ok (BigEndian.word16 _ _, _) = _
  rw [BigEndian.word16_bytes16]
  rfl

theorem word32_ok {s t : Source} {w : UInt32} (h : word32 s = .ok (w, t)) :
    ∃ a b c d, s.rest = a :: b :: c :: d :: t.rest ∧ t.offset = s.offset + 4 ∧
      w = BigEndian.word32 a b c d := by
  unfold word32 at h
  split at h
  · rename_i a b c d rest hs
    cases h
    exact ⟨a, b, c, d, hs, rfl, rfl⟩
  · cases h

theorem bytes_ok {n : Nat} {s t : Source} {x : Bytes} (h : bytes n s = .ok (x, t)) :
    s.rest = x ++ t.rest ∧ t.offset = s.offset + n ∧ x.length = n := by
  unfold bytes at h
  simp only at h
  split at h
  · rename_i hn
    cases h
    exact ⟨(List.take_append_drop n s.rest).symm, rfl, hn⟩
  · cases h

theorem bytes_append {n o : Nat} {x : Bytes} (h : x.length = n) (u : Bytes) :
    bytes n ⟨o, x ++ u⟩ = .ok (x, ⟨o + n, u⟩) := by
  subst h
  simp [bytes]

/-- A word gives the word with the edit made in it. -/
theorem replays_word16 {s t : Source} {w : UInt16} (h : word16 s = .ok (w, t))
    {slots : List Slot} (hs : Slot.Ascend s.offset t.offset slots) :
    Replays E k s t slots word16 (E.word s.offset w) := by
  obtain ⟨a, b, hr, ho, rfl⟩ := word16_ok h
  refine ⟨[a, b], hr, ho, hs, fun _ u => ?_⟩
  simp only [Edit.apply_cons, Edit.apply_nil, Edit.word_word16, ho]
  simp only [word16, List.cons_append, Nat.add_right_comm, List.nil_append]

theorem copied_word16 : Copied E k word16 word16 := by
  intro s w t h
  obtain ⟨_, _, _, ho, _⟩ := word16_ok h
  have hs : Slot.Ascend s.offset t.offset [] := by rw [ho]; exact Nat.le_add_right _ _
  obtain ⟨x, hx, hxo, hxs, hxr⟩ : Replays E k s t [] word16 _ := replays_word16 h hs
  refine ⟨x, hx, hxo, hxs, fun hE u => ?_⟩
  rw [hxr hE u, Edit.Quiet.word_eq (ho ▸ hE.quiet_of_nil)]
  rfl

theorem copied_word32 : Copied E k word32 word32 := by
  intro s w t h
  obtain ⟨a, b, c, d, hr, ho, rfl⟩ := word32_ok h
  refine ⟨[a, b, c, d], hr, ho, by rw [ho]; exact Nat.le_add_right _ _, fun hE u => ?_⟩
  rw [Edit.Quiet.apply_eq (by rw [List.length_cons]; exact ho ▸ hE.quiet_of_nil)]
  simp only [word32, List.cons_append, List.nil_append, ho, Nat.add_right_comm, id]

theorem copied_bytes (n : Nat) : Copied E k (bytes n) (bytes n) := by
  intro s x t h
  obtain ⟨hr, ho, hn⟩ := bytes_ok h
  refine ⟨x, hr, by rw [ho, hn], by rw [ho]; exact Nat.le_add_right _ _, fun hE u => ?_⟩
  rw [Edit.Quiet.apply_eq (by rw [hn, ← ho]; exact hE.quiet_of_nil), bytes_append hn, ho,
    Nat.add_right_comm]
  rfl

/-! ## 3. Steps put together -/

/-- A step without slots in front of a step that depends on what it gives. -/
theorem Copied.bind {r r' : Reading α} {f : α → Reading β} {f' : α → Reading β'}
    {slots : β → List Slot} {g : β → β'} (hr : Copied E k r r')
    (hf : ∀ a, Follows E k (f a) (f' a) slots g) :
    Follows E k (r >>= f) (r' >>= f') slots g := by
  intro s b t h
  obtain ⟨a, s', ha, hb⟩ := exists_of_bind_ok h
  exact (hr s a s' ha).bind (hf a s' b t hb)

/-- Two steps after each other, whose values make up the value of the whole. -/
theorem Follows.seq {r : Reading α} {r' : Reading α'} {q : Reading β} {q' : Reading β'}
    {slots₁ : α → List Slot} {slots₂ : β → List Slot} {g₁ : α → α'} {g₂ : β → β'}
    {m : α → β → γ} {m' : α' → β' → γ'} {slots : γ → List Slot} {g : γ → γ'}
    (hr : Follows E k r r' slots₁ g₁) (hq : Follows E k q q' slots₂ g₂)
    (hslots : ∀ a b, slots (m a b) = slots₁ a ++ slots₂ b)
    (hg : ∀ a b, g (m a b) = m' (g₁ a) (g₂ b)) :
    Follows E k (do let a ← r; let b ← q; return m a b)
      (do let a ← r'; let b ← q'; return m' a b) slots g := by
  intro s c t h
  obtain ⟨a, s₁, ha, h⟩ := exists_of_bind_ok h
  obtain ⟨b, s₂, hb, h⟩ := exists_of_bind_ok h
  cases h
  rw [hslots, hg, ← List.append_nil (slots₂ b)]
  exact (hr s a s₁ ha).bind ((hq s₁ b t hb).bind (replays_pure t _))

/-- Two steps whose values make up a pair. -/
theorem Follows.pair {r : Reading α} {r' : Reading α'} {q : Reading β} {q' : Reading β'}
    {slots₁ : α → List Slot} {slots₂ : β → List Slot} {g₁ : α → α'} {g₂ : β → β'}
    (hr : Follows E k r r' slots₁ g₁) (hq : Follows E k q q' slots₂ g₂) :
    Follows E k (do let a ← r; let b ← q; return (a, b)) (do let a ← r'; let b ← q'; return (a, b))
      (fun x => slots₁ x.1 ++ slots₂ x.2) fun x => (g₁ x.1, g₂ x.2) :=
  hr.seq hq (fun _ _ => rfl) fun _ _ => rfl

/-- **A table follows a table**, row by row. -/
theorem Follows.times {row : Reading α} {row' : Reading α'} {slots : α → List Slot} {g : α → α'}
    (h : Follows E k row row' slots g) (n : Nat) :
    Follows E k (times n row) (times n row') (·.flatMap slots) (List.map g) := by
  induction n with
  | zero =>
      intro s rows t hrows
      rw [times_zero] at hrows ⊢
      cases hrows
      exact replays_pure s []
  | succ n ih =>
      rw [times_succ, times_succ]
      exact h.seq ih (fun _ _ => List.flatMap_cons) (fun _ _ => List.map_cons)

theorem Follows.counted {row : Reading α} {row' : Reading α'} {slots : α → List Slot} {g : α → α'}
    (h : Follows E k row row' slots g) :
    Follows E k (counted row) (counted row') (·.flatMap slots) (List.map g) :=
  copied_word16.bind fun n => h.times n.toNat

/-- A table without slots gives the same rows again. -/
theorem Copied.counted {row row' : Reading α} (h : Copied E k row row') :
    Copied E k (counted row) (counted row') := by
  have hc := Follows.counted h
  rwa [List.map_id_fun, show (fun rows : List α => rows.flatMap fun _ => ([] : List Slot)) =
    fun _ => [] from funext fun rows => by simp] at hc

theorem times_discard {r : Reading α} (n : Nat) (q : Reading β) :
    (do let _ ← times n r; q) = (do let _ ← times n (do let _ ← r; return ()); q) := by
  induction n with
  | zero => rfl
  | succ n ih => simp only [times_succ, bind_assoc, pure_bind, ih]

/-- Of a table that is not looked at, nothing but its bytes matters. -/
theorem counted_discard {r : Reading α} (q : Reading β) :
    (do let _ ← counted r; q) = (do let _ ← counted (do let _ ← r; return ()); q) := by
  simp only [counted, bind_assoc]
  exact bind_congr fun n => times_discard n.toNat q

/-- A word whose offset is told with it follows itself as a slot does. -/
theorem follows_placed {m : Nat → UInt16 → α} {m' : Nat → UInt16 → α'} {slots : α → List Slot}
    {g : α → α'} (hslots : ∀ o w, slots (m o w) = [.word o])
    (hg : ∀ o w, g (m o w) = m' (o + k) (E.word o w)) :
    Follows E k (do let o ← offset; let w ← word16; return m o w)
      (do let o ← offset; let w ← word16; return m' o w) slots g := by
  intro s c t h
  obtain ⟨o, s₁, ho, h⟩ := exists_of_bind_ok h
  cases ho
  obtain ⟨w, s₂, hw, h⟩ := exists_of_bind_ok h
  cases h
  obtain ⟨_, _, _, hfin, _⟩ := word16_ok hw
  have hslot : Slot.Ascend s.offset t.offset [.word s.offset] :=
    ⟨Nat.le_refl _, by rw [hfin]; exact Nat.le_refl _⟩
  rw [hslots, hg, ← List.append_nil [Slot.word s.offset]]
  exact (replays_offset s).bind ((replays_word16 hw hslot).bind (replays_pure t _))

end ClassAccess.Reading
