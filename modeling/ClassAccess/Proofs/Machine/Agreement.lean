import ClassAccess.Machine.Scan
import ClassAccess.Reading
import Mathlib.Data.List.Forall2

/-!
# Steps of a machine against what they should come to

The steps of a machine agree with a result if they end in the same fault, or in a value that
corresponds to the value. Then no step of theirs is one that the machine cannot take.

* `Machine.Agrees` -- agreement, which goes from step to step (`Agrees.bind`) and along a list
  (`agrees_mapM`);
* `sum_eq`, `difference_eq`, `nth_eq`, `slice_eq` and so on -- when a single step can be taken;
* `Scan.Agrees` -- agreement of a scan with a reading: of the values, and of the place with what is
  left of the file. `Agrees.bind`, `agrees_byte`, `agrees_bytes`, `agrees_counted` follow the
  readings.
-/

namespace ClassAccess.Machine

variable {α β γ δ : Type}

/-! ## 1. Agreement -/

/-- Steps of a machine come to what they should: to the same fault, or to a value that corresponds.
    They do not end in a trap. -/
def Agrees (x : Machine α) (y : Except Fault β) (R : α → β → Prop) : Prop :=
  match y with
  | .ok b => ∃ a, x = done a ∧ R a b
  | .error fault => x = failed fault

theorem Agrees.not_trapped {x : Machine α} {y : Except Fault β} {R : α → β → Prop}
    (h : x.Agrees y R) (trap : Trap) : x ≠ trapped trap := by
  cases y with
  | ok b =>
      obtain ⟨a, rfl, -⟩ := h
      exact fun hne => nomatch hne
  | error fault =>
      rw [show x = failed fault from h]
      exact fun hne => nomatch hne

/-- Where steps end with a value, there is a value that it corresponds to. -/
theorem Agrees.exists_ok {x : Machine α} {y : Except Fault β} {R : α → β → Prop}
    (h : x.Agrees y R) {a : α} (ha : x = done a) : ∃ b, y = .ok b ∧ R a b := by
  cases y with
  | ok b =>
      obtain ⟨a', ha', hr⟩ := h
      cases ha.symm.trans ha'
      exact ⟨b, rfl, hr⟩
  | error fault => cases ha.symm.trans h

theorem agrees_of (y : Except Fault α) : (of y).Agrees y (· = ·) := by
  cases y with
  | ok a => exact ⟨a, rfl, rfl⟩
  | error fault => rfl

theorem of_bind (x : Except Fault α) (f : α → Except Fault β) :
    of (x >>= f) = of x >>= fun a => of (f a) := by
  cases x <;> rfl

theorem Agrees.mono {x : Machine α} {y : Except Fault β} {R S : α → β → Prop} (h : x.Agrees y R)
    (himp : ∀ a b, R a b → S a b) : x.Agrees y S := by
  cases y with
  | ok b =>
      obtain ⟨a, ha, hr⟩ := h
      exact ⟨a, ha, himp a b hr⟩
  | error fault => exact h

/-- **Steps after each other agree** where each of them does. -/
theorem Agrees.bind {x : Machine α} {y : Except Fault β} {R : α → β → Prop}
    {f : α → Machine γ} {g : β → Except Fault δ} {S : γ → δ → Prop} (h : x.Agrees y R)
    (hfg : ∀ a b, R a b → (f a).Agrees (g b) S) : (x >>= f).Agrees (y >>= g) S := by
  cases y with
  | ok b =>
      obtain ⟨a, rfl, hr⟩ := h
      exact hfg a b hr
  | error fault =>
      rw [show x = failed fault from h]
      rfl

/-- Where the same is known first, what is made of it has to agree. -/
theorem agrees_of_bind {x : Except Fault α} {f : α → Except Fault γ} {g : α → Except Fault δ}
    {R : γ → δ → Prop} (h : ∀ a, (of (f a)).Agrees (g a) R) :
    (of (x >>= f)).Agrees (x >>= g) R := by
  cases x with
  | error fault => rfl
  | ok a => exact h a

/-- Steps on the members of a list agree where they do on each member. -/
theorem agrees_mapM {f : α → Except Fault β} {g : α → Except Fault γ} {R : β → γ → Prop}
    (h : ∀ a, (of (f a)).Agrees (g a) R) (l : List α) :
    (of (l.mapM f)).Agrees (l.mapM g) (List.Forall₂ R) := by
  induction l with
  | nil => exact ⟨[], rfl, .nil⟩
  | cons a l ih =>
      rw [List.mapM_cons, List.mapM_cons, of_bind]
      refine (h a).bind fun b c hbc => ?_
      rw [of_bind]
      exact ih.bind fun bs cs hbcs => ⟨b :: bs, rfl, .cons hbc hbcs⟩

/-! ## 2. Single steps -/

section Words

variable [Words]

/-- A word has at least 64 bits. -/
theorem lt_words {n : Nat} (h : n < 0x10000000000000000) : n < words := by
  have hwide := Words.wide
  unfold words
  omega

/-- A machine that holds a row holds every row that is no longer. -/
theorem Fits.of_length_le {row : List α} {row' : List β} (h : Fits row)
    (hle : row'.length ≤ row.length) : Fits row' := Nat.lt_of_le_of_lt hle h

/-- What is little more than the length of a row is a word. -/
theorem Fits.lt_words {row : List α} (h : Fits row) {n : Nat}
    (hn : n ≤ row.length + 0x8000000000000000) : n < words := by
  have hwide := Words.wide
  unfold Fits at h
  unfold words
  omega

theorem sum_eq {a b : Nat} (h : a + b < words) : sum a b = done (a + b) := if_pos h

theorem product_eq {a b : Nat} (h : a * b < words) : product a b = done (a * b) := if_pos h

end Words

theorem difference_eq {a b : Nat} (h : b ≤ a) : difference a b = done (a - b) := if_pos h

theorem narrow_eq {n : Nat} (h : n < 0x10000) : narrow n = done n.toUInt16 := by
  simp only [narrow, below, if_pos h, done_bind]
  rfl

theorem signed_eq {v : Int} (h : -0x8000000000000000 ≤ v ∧ v < 0x8000000000000000) :
    signed v = done v := if_pos h

theorem unsigned_eq {v : Int} (h : 0 ≤ v) : unsigned v = done v.toNat := if_pos h

theorem nth_eq {row : List α} {i : Nat} {a : α} (h : row[i]? = some a) : nth row i = done a := by
  simp only [nth, h]

theorem slice_eq {row : List α} {first last : Nat} (h : first ≤ last) (hlast : last ≤ row.length) :
    slice row first last = done ((row.take last).drop first) := if_pos ⟨h, hlast⟩

theorem set_eq {row : List α} {i : Nat} (h : i < row.length) (a : α) :
    set row i a = done (row.set i a) := if_pos h

theorem setSlice_eq {row new : List α} {first : Nat} (h : first + new.length ≤ row.length) :
    setSlice row first (first + new.length) new =
      done (row.take first ++ new ++ row.drop (first + new.length)) :=
  if_pos ⟨Nat.le_add_right _ _, h, rfl⟩

/-! ## 3. Scans -/

namespace Scan

/-- Two values are the same, wherever the steps end. -/
def Same (a b : α) (_ : Nat) : Prop := a = b

/-- A scan does what a reading does to the bytes from a place on: it comes to the same fault, or its
    value corresponds and its place is where what is left of the file starts. -/
def Agrees (data : Bytes) (place : Nat) (m : Scan α) (r : Reading β) (Q : α → β → Nat → Prop) :
    Prop :=
  place ≤ data.length → Machine.Agrees (m data place) (r (.from data place)) fun p q =>
    q.2 = .from data p.2 ∧ p.2 ≤ data.length ∧ Q p.1 q.1 p.2

variable {data : Bytes} {place : Nat}

theorem Agrees.mono {m : Scan α} {r : Reading β} {Q Q' : α → β → Nat → Prop}
    (h : Agrees data place m r Q)
    (himp : ∀ a b here, here ≤ data.length → Q a b here → Q' a b here) :
    Agrees data place m r Q' :=
  fun hplace => (h hplace).mono fun p q ⟨hs, hle, hq⟩ => ⟨hs, hle, himp p.1 q.1 p.2 hle hq⟩

/-- **Scans after each other agree** where each of them does. -/
theorem Agrees.bind {m : Scan α} {r : Reading β} {Q : α → β → Nat → Prop} {f : α → Scan γ}
    {g : β → Reading δ} {S : γ → δ → Nat → Prop} (h : Agrees data place m r Q)
    (hfg : ∀ a b here, Q a b here → Agrees data here (f a) (g b) S) :
    Agrees data place (m >>= f) (r >>= g) S := by
  intro hplace
  refine (h hplace).bind fun p q hpq => ?_
  obtain ⟨hs, hle, hq⟩ := hpq
  rw [show q = (q.1, Source.from data p.2) from Prod.ext rfl hs]
  exact hfg p.1 q.1 p.2 hq hle

/-- After equal values, what is done with either of them has to agree. -/
theorem Agrees.bind_same {m : Scan α} {r : Reading α} {f : α → Scan γ} {g : α → Reading δ}
    {S : γ → δ → Nat → Prop} (h : Agrees data place m r Same)
    (hfg : ∀ a here, Agrees data here (f a) (g a) S) : Agrees data place (m >>= f) (r >>= g) S :=
  h.bind fun a b here hab => by
    rw [← show a = b from hab]
    exact hfg a here

theorem agrees_pure {a : α} {b : β} {Q : α → β → Nat → Prop} (h : Q a b place) :
    Agrees data place (pure a) (pure b) Q :=
  fun hplace => ⟨(a, place), rfl, rfl, hplace, h⟩

theorem agrees_check {x : Machine α} {y : Except Fault β} {R : α → β → Prop} (h : x.Agrees y R) :
    Agrees data place (check x) (Reading.check y) fun a b _ => R a b := by
  intro hplace
  cases y with
  | ok b =>
      obtain ⟨a, rfl, hr⟩ := h
      exact ⟨(a, place), rfl, rfl, hplace, hr⟩
  | error fault =>
      rw [show x = failed fault from h]
      rfl

theorem agrees_of (y : Except Fault α) :
    Agrees data place (check (of y)) (Reading.check y) Same := agrees_check (Machine.agrees_of y)

theorem agrees_fail (fault : Fault) (Q : α → β → Nat → Prop) :
    Agrees data place (check (failed fault)) (Reading.fail fault) Q := fun _ => rfl

/-- What is done at a place that is kept. -/
theorem agrees_offset_bind {f : Nat → Scan γ} {g : Nat → Reading δ} {S : γ → δ → Nat → Prop}
    (hfg : Agrees data place (f place) (g place) S) :
    Agrees data place (offset >>= f) (Reading.offset >>= g) S := hfg

/-- What is done at a place from which the file is read again. -/
theorem agrees_source_bind {f : Nat → Scan γ} {g : Source → Reading δ} {S : γ → δ → Nat → Prop}
    (hfg : Agrees data place (f place) (g (.from data place)) S) :
    Agrees data place (offset >>= f) (Reading.source >>= g) S := hfg

/-! ## 4. Tables -/

/-- **A table agrees** where its rows do, wherever they start. -/
theorem agrees_times {row : Scan α} {row' : Reading β} {R : α → β → Prop}
    (h : ∀ place, Agrees data place row row' fun a b _ => R a b) (n : Nat) :
    Agrees data place (times n row) (Reading.times n row') fun as bs _ =>
      List.Forall₂ R as bs := by
  induction n generalizing place with
  | zero => exact agrees_pure .nil
  | succ n ih =>
      rw [Reading.times_succ]
      refine (h place).bind fun a b here hab => ?_
      refine ih.bind fun as bs there habs => ?_
      exact agrees_pure (.cons hab habs)

/-! ## 5. Bytes -/

/-- A byte of a block. -/
theorem nth_getD {row : List α} {i : Nat} (h : i < row.length) (a : α) :
    nth row i = done (row.getD i a) := by
  rw [List.getD_eq_getElem?_getD, List.getElem?_eq_getElem h, Option.getD_some]
  exact nth_eq (List.getElem?_eq_getElem h)

theorem word16_eq : Reading.word16 =
    Reading.bytes 2 >>= fun b => pure (BigEndian.word16 (b.getD 0 0) (b.getD 1 0)) := by
  funext s
  rw [Reading.run_bind]
  match hs : s.rest with
  | a :: b :: rest => simp [Reading.word16, Reading.bytes, hs]
  | [] | [_] => simp [Reading.word16, Reading.bytes, hs]

theorem word32_eq : Reading.word32 = Reading.bytes 4 >>= fun b =>
    pure (BigEndian.word32 (b.getD 0 0) (b.getD 1 0) (b.getD 2 0) (b.getD 3 0)) := by
  funext s
  rw [Reading.run_bind]
  match hs : s.rest with
  | a :: b :: c :: d :: rest => simp [Reading.word32, Reading.bytes, hs]
  | [] | [_] | [_, _] | [_, _, _] => simp [Reading.word32, Reading.bytes, hs]

variable [Words]

/-- **A block of bytes**: what a scan takes lies within the file. -/
theorem agrees_bytes (h : Fits data) (n : Nat) :
    Agrees data place (bytes n) (Reading.bytes n) fun a b here =>
      a = b ∧ a.length = n ∧ here = place + n ∧ here ≤ data.length := by
  intro hplace
  have hlen : ((data.drop place).take n).length = min n (data.length - place) := by
    rw [List.length_take, List.length_drop]
  by_cases hn : place + n ≤ data.length
  · have hread : Reading.bytes n (.from data place) =
        .ok ((data.drop place).take n, ⟨place + n, (data.drop place).drop n⟩) := by
      show (if _ then _ else _) = _
      rw [if_pos (by rw [show (Source.from data place).rest = data.drop place from rfl]; omega)]
      rfl
    have hscan : bytes n data place = done ((data.drop place).take n, place + n) := by
      simp only [bytes]
      rw [if_pos ⟨h.lt_words (by omega), hn⟩, slice_eq (Nat.le_add_right _ _) hn, List.drop_take,
        Nat.add_sub_cancel_left]
      rfl
    rw [hread, hscan]
    refine ⟨_, rfl, ?_, hn, rfl, hlen.trans (by omega), rfl, hn⟩
    rw [List.drop_drop]
    rfl
  · have hread : Reading.bytes n (.from data place) = .error (.unexpectedEnd place) := by
      show (if _ then _ else _) = _
      rw [if_neg (by rw [show (Source.from data place).rest = data.drop place from rfl]; omega)]
      rfl
    rw [hread]
    exact if_neg fun hc => hn hc.2

theorem agrees_byte (h : Fits data) : Agrees data place byte Reading.byte Same := by
  intro hplace
  cases hd : data.drop place with
  | nil =>
      have hnone : data[place]? = none :=
        List.getElem?_eq_none (List.drop_eq_nil_iff.1 hd)
      have hread : Reading.byte (.from data place) = .error (.unexpectedEnd place) := by
        simp only [Reading.byte, Source.from, hd]
      rw [hread]
      simp only [byte, hnone]
      rfl
  | cons b rest =>
      have hb : data[place]? = some b := by
        rw [← List.head?_drop, hd, List.head?_cons]
      have hlt : place < data.length := (List.getElem?_eq_some_iff.1 hb).1
      have hread : Reading.byte (.from data place) = .ok (b, .from data (place + 1)) := by
        simp only [Reading.byte, Source.from, hd, ← List.drop_drop, List.drop_succ_cons,
          List.drop_zero]
      have hscan : byte data place = done (b, place + 1) := by
        simp only [byte, hb]
        rw [sum_eq (h.lt_words (by omega))]
        rfl
      rw [hread, hscan]
      exact ⟨_, rfl, rfl, hlt, rfl⟩

theorem agrees_word16 (h : Fits data) : Agrees data place word16 Reading.word16 Same := by
  rw [word16_eq]
  refine (agrees_bytes h 2).bind fun b b' here ⟨hb, hlen, _⟩ => ?_
  subst hb
  rw [nth_getD (by omega) 0, nth_getD (by omega) 0]
  exact agrees_of (.ok _)

theorem agrees_word32 (h : Fits data) : Agrees data place word32 Reading.word32 Same := by
  rw [word32_eq]
  refine (agrees_bytes h 4).bind fun b b' here ⟨hb, hlen, _⟩ => ?_
  subst hb
  rw [nth_getD (by omega) 0, nth_getD (by omega) 0, nth_getD (by omega) 0, nth_getD (by omega) 0]
  exact agrees_of (.ok _)

theorem agrees_word64 (h : Fits data) : Agrees data place word64 Reading.word64 Same :=
  (agrees_word32 h).bind_same fun _ _ => (agrees_word32 h).bind_same fun _ _ => agrees_pure rfl

/-- What is looked up by a number that is read. -/
theorem agrees_lookup_bind (h : Fits data) {look : UInt16 → Except Fault α} {f : α → Scan γ}
    {g : α → Reading δ} {S : γ → δ → Nat → Prop}
    (hfg : ∀ a here, Agrees data here (f a) (g a) S) :
    Agrees data place (do f (← check (of (look (← word16)))))
      (do g (← Reading.check (look (← Reading.word16)))) S :=
  (agrees_word16 h).bind_same fun i _ => (agrees_of (look i)).bind_same hfg

/-! ## 6. Counted tables -/

theorem agrees_counted (hfits : Fits data) {row : Scan α} {row' : Reading β} {R : α → β → Prop}
    (h : ∀ place, Agrees data place row row' fun a b _ => R a b) :
    Agrees data place (counted row) (Reading.counted row') fun as bs _ =>
      List.Forall₂ R as bs :=
  (agrees_word16 hfits).bind_same fun n _ => agrees_times h n.toNat

/-- A table of equal rows. -/
theorem agrees_counted_same (hfits : Fits data) {row : Scan α} {row' : Reading α}
    (h : ∀ place, Agrees data place row row' Same) :
    Agrees data place (counted row) (Reading.counted row') Same :=
  (agrees_counted (R := (· = ·)) hfits h).mono fun as bs _ _ hrows => by
    rw [List.forall₂_eq_eq_eq] at hrows
    exact hrows

end Scan

end ClassAccess.Machine
