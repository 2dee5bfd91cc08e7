import ClassAccess.Proofs.ConstantPool.Entries

/-!
# Runs of requests to a pool

A pool is asked for entries, one request after the other. The numbers that it gives are kept in
other entries and in the code of methods, so they have to go on meaning what was asked for.

* `ConstantPool.Orderly` -- what every pool is like: its numbers fit two bytes, and neither zero nor
  the number behind an entry that takes two slots leads anywhere;
* `Interning.Request`, `Interning.run` -- what a pool can be asked for, and requests one after the
  other, each made whether or not the one before it succeeded;
* `Request.keeps_perform`, `run_grown` -- **a request adds entries at the end of the pool**, whether
  or not it succeeds, and so does a run;
* `Request.perform_ok`, `Request.perform_again` -- the number that a request gives **leads to what
  was asked for**, and is given again;
* `Request.Served`, `Request.serves` -- what one request comes to;
* `run_serves` -- **every request of every run is served**, now and from then on.
-/

namespace ClassAccess

open Outcome

namespace ConstantPool

variable {pool pool' : ConstantPool} {c : Constant} {i : UInt16}

/-! ## 1. Orderly pools -/

/-- A pool to begin with: the empty one, or one that was read. -/
inductive Begun : ConstantPool → Prop
  | empty : Begun {}
  | read {data : Bytes} {offset stop : Nat} {pool : ConstantPool} :
      ofBytes data offset = .ok (pool, stop) → Begun pool

/-- What every pool is like. The number of each slot fits two bytes, the number zero leads nowhere,
    and behind an entry that takes two slots stands one whose number leads nowhere. -/
structure Orderly (pool : ConstantPool) : Prop where
  bounded : pool.count ≤ 65535
  zero : pool.get 0 = .error (.invalidIndex 0)
  behind : ∀ k c, pool.slots[k]? = some c → c.isWide = true →
    pool.slots[k + 1]? = some .unusable ∧
      ∃ j : UInt16, j.toNat = k + 1 ∧ pool.get j = .error (.invalidIndex j)

theorem get_of_unusable (h : pool.slots[i.toNat]? = some .unusable) :
    pool.get i = .error (.invalidIndex i) := by
  unfold get
  rw [h]

/-- Behind an entry that takes two slots stands one that cannot be used. -/
theorem getElem?_rows_succ {entries : List Constant} {k : Nat} (h : (rows entries)[k]? = some c)
    (hw : c.isWide = true) : (rows entries)[k + 1]? = some .unusable := by
  induction entries generalizing k with
  | nil => cases h
  | cons d entries ih =>
      rw [rows_cons] at h ⊢
      cases hd : d.isWide with
      | false =>
          rw [Constant.row_of_narrow hd] at h ⊢
          cases k with
          | zero =>
              cases h
              rw [hw] at hd
              cases hd
          | succ k => exact ih h
      | true =>
          rw [Constant.row_of_wide hd] at h ⊢
          match k with
          | 0 => rfl
          | 1 =>
              cases h
              cases hw
          | k + 2 => exact ih h

/-- **A pool that is laid out is orderly.** -/
theorem LaidOut.orderly (hl : pool.LaidOut) (hp : pool.Healthy) : pool.Orderly := by
  obtain ⟨entries, -, hslots⟩ := hl
  have hget : ∀ k, pool.slots[k]? = (.unusable :: rows entries)[k]? := fun k => by
    rw [← hslots, Array.getElem?_toList]
  refine ⟨hp.bounded, get_of_unusable hp.first, fun k c hk hw => ?_⟩
  rw [hget] at hk
  have hbehind : pool.slots[k + 1]? = some .unusable := by
    rw [hget]
    cases k with
    | zero =>
        cases hk
        cases hw
    | succ k => exact getElem?_rows_succ hk hw
  have hlt : k + 1 < pool.count := (Array.getElem?_eq_some_iff.1 hbehind).1
  have hj := hp.toNat_toUInt16 hlt
  exact ⟨hbehind, _, hj, get_of_unusable (hj.symm ▸ hbehind)⟩

theorem Begun.sound (h : pool.Begun) : pool.LaidOut ∧ pool.Healthy := by
  cases h with
  | empty => exact ⟨laidOut_empty, healthy_empty⟩
  | read h =>
      obtain ⟨met, hmet, hslots, hhealthy⟩ := ofBytes_ok h
      exact ⟨hmet.laidOut hslots, hhealthy⟩

/-- The number of an entry is neither zero nor too large. -/
theorem Healthy.bounds_of_get (h : pool.Healthy) (hc : pool.get i = .ok c) :
    1 ≤ i.toNat ∧ i.toNat < pool.count := by
  refine ⟨Nat.one_le_iff_ne_zero.2 fun hi => ?_, ?_⟩
  · exact h.ne_zero_of_get hc (UInt16.toNat_inj.1 hi)
  · exact (Array.getElem?_eq_some_iff.1 (get_eq_ok_iff.1 hc).1).1

/-- An entry that is added is found at the end. -/
theorem Healthy.get_add (h : pool.Healthy) (hu : c ≠ .unusable)
    (hroom : pool.count + c.slots ≤ capacity) :
    (pool.add c).get pool.count.toUInt16 = .ok c := by
  obtain ⟨rest, hrow⟩ := c.exists_row
  have hlt : pool.count < (pool.add c).count := by
    rw [count_add, ← Constant.length_row, hrow, List.length_cons]
    omega
  rw [get_eq_ok_iff, (h.add hroom).toNat_toUInt16 hlt, add_eq_grown, hrow, ConstantPool.grown]
  refine ⟨(Array.getElem?_append_right (Nat.le_refl _)).trans ?_, hu⟩
  show (c :: rest).toArray[pool.slots.size - pool.slots.size]? = _
  rw [Nat.sub_self]
  rfl

end ConstantPool

/-! ## 2. Requests -/

namespace Interning

open ConstantPool

/-- What a pool can be asked for: an entry whether or not an equal one is there, or an entry, a
    text, a class or a name with a descriptor unless it is there. -/
inductive Request
  | push (c : Constant)
  | intern (c : Constant)
  | text (value : String)
  | classNamed (name : String)
  | nameAndType (name descriptor : String)
  deriving DecidableEq, Repr

namespace Request

/-- Does what is asked for, and gives its number. -/
def perform : Request → Interning UInt16
  | push c => fresh c
  | intern c => constant c
  | text value => Interning.text value
  | classNamed name => Interning.classNamed name
  | nameAndType name descriptor => Interning.nameAndType name descriptor

/-- Whether the request is for an entry that can be used. -/
def Usable : Request → Prop
  | push c | intern c => c ≠ .unusable
  | _ => True

/-- The entry that is asked for, if it is one, unless it is there. -/
def single? : Request → Option Constant
  | intern c => some c
  | text value => some (.text value)
  | _ => none

/-- The number leads to what is asked for. -/
def Answered (pool : ConstantPool) (i : UInt16) : Request → Prop
  | push c | intern c => pool.get i = .ok c
  | text value => pool.text i = .ok value
  | classNamed name => pool.className i = .ok name
  | nameAndType name descriptor => pool.nameAndType i = .ok (name, descriptor)

/-- The pool after the request, whether or not it succeeds. -/
def after (r : Request) (pool : ConstantPool) : ConstantPool :=
  match r.perform pool with
  | .ok _ pool' => pool'
  | .error _ pool' => pool'

end Request

/-- The pool after some requests, each made to the pool that the one before it left. -/
def run (pool : ConstantPool) (requests : List Request) : ConstantPool :=
  requests.foldl (fun pool r => r.after pool) pool

variable {pool pool' last : ConstantPool} {c : Constant} {i : UInt16} {r : Request}

/-! ## 3. What a request adds -/

/-- **A request adds entries at the end of the pool**, whether or not it succeeds. -/
theorem Request.keeps_perform (hr : r.Usable) : Keeps (Grown fun _ => true) r.perform := by
  cases r with
  | push => exact keeps_fresh hr rfl
  | intern => exact keeps_constant hr rfl
  | text value => exact (keeps_text value).mono fun _ _ h => h.mono fun _ _ => rfl
  | classNamed name => exact (keeps_classNamed name).mono fun _ _ h => h.mono fun _ _ => rfl
  | nameAndType name descriptor =>
      exact (keeps_nameAndType name descriptor).mono fun _ _ h => h.mono fun _ _ => rfl

theorem Request.after_grown (hr : r.Usable) (pool : ConstantPool) :
    Grown (fun _ => true) pool (r.after pool) := by
  unfold after
  split
  · rename_i h
    exact (keeps_perform hr).1 _ _ _ h
  · rename_i h
    exact (keeps_perform hr).2 _ _ _ h

/-- **So do requests one after the other.** -/
theorem run_grown {requests : List Request} (h : ∀ r ∈ requests, r.Usable) (pool : ConstantPool) :
    Grown (fun _ => true) pool (run pool requests) := by
  induction requests generalizing pool with
  | nil => exact .refl
  | cons r requests ih =>
      exact (Request.after_grown (h r List.mem_cons_self) pool).trans
        (ih (fun r' hr' => h r' (List.mem_cons_of_mem _ hr')) (r.after pool))

/-! ## 4. What a request gives -/

theorem Request.Answered.mono (h : r.Answered pool i) (hw : pool.Within pool') :
    r.Answered pool' i := by
  cases r with
  | push | intern => exact hw.get h
  | text => exact hw.text h
  | classNamed => exact hw.className h
  | nameAndType => exact hw.nameAndType h

theorem Request.Answered.exists_get (h : r.Answered pool i) : ∃ c, pool.get i = .ok c := by
  cases r with
  | push c | intern c => exact ⟨c, h⟩
  | text | classNamed | nameAndType =>
      obtain ⟨c, hc, -⟩ := exists_of_bind_ok h
      exact ⟨c, hc⟩

/-- **The number that a request gives leads to what is asked for.** -/
theorem Request.perform_ok (hp : pool.Healthy) (hr : r.Usable)
    (h : r.perform pool = .ok i pool') : r.Answered pool' i := by
  cases r with
  | push c =>
      obtain ⟨rfl, rfl, hroom⟩ := fresh_ok h
      exact hp.get_add hr hroom
  | intern => exact constant_ok hp hr h
  | text => exact text_ok hp h
  | classNamed => exact classNamed_ok hp h
  | nameAndType => exact nameAndType_ok hp h

/-- An entry that was asked for once is found again. -/
theorem constant_again (hp : pool.Healthy) (hu : c ≠ .unusable)
    (h : constant c pool = .ok i pool') (hext : pool'.Extends last) :
    constant c last = .ok i last := by
  have hfind := (hp.intern_ok hu (constant_ok_iff.1 h)).1
  unfold constant
  rw [hext.find c i hfind]

/-- **What was asked for once is found again under the same number**, unless a new entry is asked
    for, and nothing is added. -/
theorem Request.perform_again (hp : pool.Healthy) (hr : r.Usable) (hpush : ∀ c, r ≠ .push c)
    (h : r.perform pool = .ok i pool') (hext : pool'.Extends last) :
    r.perform last = .ok i last := by
  cases r with
  | push c => exact absurd rfl (hpush c)
  | intern => exact constant_again hp hr h hext
  | text => exact constant_again hp (by nofun) h hext
  | classNamed name =>
      obtain ⟨n, pool₁, hname, h⟩ := bind_ok_iff.1 h
      have hgrown₁ := (keeps_text name).1 _ _ _ hname
      have hgrown : Grown Constant.isPlain pool₁ pool' := (keeps_constant (by nofun) rfl).1 _ _ _ h
      have hname' := constant_again hp (by nofun) hname (hgrown.extended.trans hext)
      exact (bind_of_ok hname').trans
        (constant_again (hgrown₁.healthy hp) (by nofun) h hext)
  | nameAndType name descriptor =>
      obtain ⟨n, pool₁, hname, h⟩ := bind_ok_iff.1 h
      obtain ⟨d, pool₂, hdescriptor, h⟩ := bind_ok_iff.1 h
      have hgrown₁ := (keeps_text name).1 _ _ _ hname
      have hgrown₂ := (keeps_text descriptor).1 _ _ _ hdescriptor
      have hgrown₃ : Grown Constant.isPlain pool₂ pool' :=
        (keeps_constant (by nofun) rfl).1 _ _ _ h
      have hp₁ := hgrown₁.healthy hp
      have hext₂ := hgrown₃.extended.trans hext
      have hname' := constant_again hp (by nofun) hname (hgrown₂.extended.trans hext₂)
      have hdescriptor' := constant_again hp₁ (by nofun) hdescriptor hext₂
      exact (bind_of_ok hname').trans ((bind_of_ok hdescriptor').trans
        (constant_again (hgrown₂.healthy hp₁) (by nofun) h hext))

/-! ## 5. Runs -/

/-- What a request comes to that is made to the pool `before` and leaves the pool `now`, of which
    later requests make `last`. -/
structure Request.Served (r : Request) (before now last : ConstantPool) : Prop where
  orderly : now.Orderly
  kept : before.Within now
  atEnd : ∃ new, now = before.grown new
  answered : ∀ i pool, r.perform before = .ok i pool → pool = now ∧
    1 ≤ i.toNat ∧ i.toNat < now.count ∧ r.Answered now i ∧ r.Answered last i
  again : ∀ i pool, r.perform before = .ok i pool → (∀ c, r ≠ .push c) →
    r.perform now = .ok i now ∧ r.perform last = .ok i last
  added : ∀ c, r.single? = some c → now = before ∨ now = before.add c ∧ c ∉ before.slots
  refused : ∀ c fault pool, r = .push c ∨ r.single? = some c →
    r.perform before = .error fault pool → now = before

/-- A request for one entry is the step for it. -/
theorem Request.perform_of_single? (h : r.single? = some c) (hr : r.Usable) :
    r.perform = constant c ∧ c ≠ .unusable := by
  cases r with
  | intern =>
      cases h
      exact ⟨rfl, hr⟩
  | text =>
      cases h
      exact ⟨rfl, nofun⟩
  | push | classNamed | nameAndType => cases h

theorem Request.after_of_ok (h : r.perform pool = .ok i pool') : r.after pool = pool' := by
  unfold after
  rw [h]

theorem Request.after_of_error {fault : Fault} (h : r.perform pool = .error fault pool') :
    r.after pool = pool' := by
  unfold after
  rw [h]

/-- **A request for one entry adds it only where no equal one is.** -/
theorem Request.after_of_single? (hp : pool.Healthy) (hr : r.Usable) (hc : r.single? = some c) :
    r.after pool = pool ∨ r.after pool = pool.add c ∧ c ∉ pool.slots := by
  obtain ⟨hperform, hu⟩ := perform_of_single? hc hr
  cases hok : r.perform pool with
  | error fault now =>
      have hleaves : Leaves Eq r.perform := hperform ▸ leaves_constant Eq fun _ => rfl
      exact .inl ((after_of_error hok).trans (hleaves _ _ _ hok).symm)
  | ok i now =>
      have hnow : r.after pool = now := after_of_ok hok
      rw [hperform, constant_ok_iff] at hok
      obtain ⟨-, ⟨hpool, -⟩ | ⟨hpool, hnew, -⟩⟩ := hp.intern_ok hu hok
      · exact .inl (hnow.trans hpool)
      · exact .inr ⟨hnow.trans hpool, hnew⟩

/-- **One entry that is refused leaves the pool as it was.** -/
theorem Request.after_of_refused {fault : Fault} (hr : r.Usable)
    (hc : r = .push c ∨ r.single? = some c) (h : r.perform pool = .error fault pool') :
    r.after pool = pool := by
  have hleaves : Leaves Eq r.perform := by
    rcases hc with rfl | hc
    · exact leaves_fresh Eq fun _ => rfl
    · rw [(perform_of_single? hc hr).1]
      exact leaves_constant Eq fun _ => rfl
  exact (after_of_error h).trans (hleaves _ _ _ h).symm

/-- **One request is served**, whatever is added later. -/
theorem Request.serves (hl : pool.LaidOut) (hp : pool.Healthy) (hr : r.Usable)
    (hlast : Grown (fun _ => true) (r.after pool) last) :
    r.Served pool (r.after pool) last := by
  have hnow := after_grown hr pool
  have hp' : (r.after pool).Healthy := hnow.healthy hp
  have hgiven : ∀ {i pool'}, r.perform pool = .ok i pool' → pool' = r.after pool := fun hok =>
    (after_of_ok hok).symm
  refine ⟨(hnow.laidOut hl).orderly hp', hnow.within, ?_, fun i pool' hok => ?_,
    fun i pool' hok hpush => ?_, fun c => after_of_single? hp hr, fun c fault pool' hc =>
      after_of_refused hr hc⟩
  · obtain ⟨new, -, hnew⟩ := hnow.exists_grown
    exact ⟨rows new, hnew⟩
  · obtain rfl := hgiven hok
    have hanswered := perform_ok hp hr hok
    obtain ⟨c, hc⟩ := hanswered.exists_get
    obtain ⟨hone, hlt⟩ := hp'.bounds_of_get hc
    exact ⟨rfl, hone, hlt, hanswered, hanswered.mono hlast.within⟩
  · rw [hgiven hok] at hok
    exact ⟨perform_again hp hr hpush hok (.refl _), perform_again hp hr hpush hok hlast.extended⟩

/-- **Every request of every run is served.** Whatever was asked for before and is asked for later,
    the pool that a request leaves is orderly and has the entries that it had, with new ones at its
    end. A number that is given leads to what was asked for, now and from then on, and unless a new
    entry was asked for, it is the number that is given again. An entry is added only where no equal
    one is, and a single entry that is refused leaves the pool as it was. -/
theorem run_serves {start : ConstantPool} (hstart : start.Begun) (earlier : List Request)
    (r : Request) (later : List Request) (h : ∀ r' ∈ earlier ++ r :: later, r'.Usable) :
    let before := run start earlier
    let now := r.after before
    r.Served before now (run now later) := by
  intro before now
  have hearlier : ∀ r' ∈ earlier, r'.Usable := fun r' hr' => h r' (List.mem_append_left _ hr')
  have hr : r.Usable := h r (List.mem_append_right _ List.mem_cons_self)
  have hlater : ∀ r' ∈ later, r'.Usable := fun r' hr' =>
    h r' (List.mem_append_right _ (List.mem_cons_of_mem _ hr'))
  obtain ⟨hlaid, hhealthy⟩ := hstart.sound
  have hbefore : Grown (fun _ => true) start before := run_grown hearlier start
  exact Request.serves (hbefore.laidOut hlaid) (hbefore.healthy hhealthy) hr (run_grown hlater now)

/-- A class that is asked for behind a number that takes two slots, and once more later. -/
theorem run_serves_classAgain :
    let before := run {} [.push (.long 7)]
    let now := (Request.classNamed "A").after before
    let last := run now [.push (.text "B"), .classNamed "A"]
    now.count = 5 ∧ now.get 2 = .error (.invalidIndex 2) ∧ last.className 4 = .ok "A" ∧
      (Request.classNamed "A").perform last = .ok 4 last := by
  intro before now last
  have husable : ∀ r ∈ [Request.push (.long 7)] ++ .classNamed "A" ::
      [.push (.text "B"), .classNamed "A"], r.Usable := by
    simp only [List.cons_append, List.nil_append, List.forall_mem_cons, List.not_mem_nil,
      false_imp_iff, implies_true, and_true]
    exact ⟨nofun, trivial, nofun, trivial⟩
  have hserved : (Request.classNamed "A").Served before now last := run_serves .empty
    [.push (.long 7)] (.classNamed "A") [.push (.text "B"), .classNamed "A"] husable
  have htext : before.intern (.text "A") =
      .ok (3, ⟨#[.unusable, .long 7, .unusable, .text "A"]⟩) := by decide +kernel
  have hclass : ConstantPool.intern ⟨#[.unusable, .long 7, .unusable, .text "A"]⟩ (.classEntry 3) =
      .ok (4, ⟨#[.unusable, .long 7, .unusable, .text "A", .classEntry 3]⟩) := by decide +kernel
  have hok : (Request.classNamed "A").perform before = .ok 4 _ :=
    bind_ok_iff.2 ⟨_, _, constant_ok_iff.2 htext, constant_ok_iff.2 hclass⟩
  have hnow : now = _ := Request.after_of_ok hok
  obtain ⟨-, hlast⟩ := hserved.again 4 _ hok nofun
  obtain ⟨-, -, -, -, hname⟩ := hserved.answered 4 _ hok
  exact ⟨by rw [hnow]; rfl, by rw [hnow]; rfl, hname, hlast⟩

end Interning

end ClassAccess
