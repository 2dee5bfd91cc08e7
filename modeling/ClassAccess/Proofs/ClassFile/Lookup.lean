import ClassAccess.ClassFile.Layout
import ClassAccess.Proofs.ConstantPool.Growth
import ClassAccess.Proofs.Reading.Edit

/-!
# Looking up calls

What a call says is looked up in the constant pool and in the table of bootstrap methods.

* `handleAt_eq_ok_iff`, `argumentAt_eq_handle_iff`, `directCallAt_eq_ok_iff`,
  `dynamicCallAt_eq_ok_iff` -- when a look-up succeeds, and what it gives;
* `handleAt_within`, `argumentAt_within` -- **a pool that grew gives the same answers**.
-/

namespace ClassAccess

open Outcome

/-! ## 1. Numbers of kinds -/

theorem HandleKind.ofCode?_eq_some_iff {n : UInt8} {k : HandleKind} :
    ofCode? n = some k ↔ k.code = n := by
  constructor
  · intro h
    unfold ofCode? at h
    exact beq_iff_eq.1 (List.find?_some (p := fun k : HandleKind => k.code == n) h)
  · rintro rfl
    exact ofCode?_code k

theorem CallKind.ofOpcode?_eq_some_iff {op : UInt8} {k : CallKind} :
    ofOpcode? op = some k ↔ k.opcode = op := by
  constructor
  · intro h
    unfold ofOpcode? at h
    split at h
    · rename_i hop
      cases h
      exact hop.symm
    split at h
    · rename_i hop
      cases h
      exact hop.symm
    split at h
    · rename_i hop
      cases h
      exact hop.symm
    split at h
    · rename_i hop
      cases h
      exact hop.symm
    · cases h
  · rintro rfl
    exact ofOpcode?_opcode k

theorem CallKind.opcode_ne_dynamic (k : CallKind) : k.opcode ≠ Code.dynamicOpcode := by
  cases k <;> decide

theorem CallKind.isPlainCall_opcode (k : CallKind) : isPlainCall k.opcode = k.isPlain := by
  cases k <;> decide

namespace Layout

variable {pool pool' : ConstantPool} {index : UInt16}

/-! ## 2. Handles and arguments -/

/-- **A handle is looked up** when its number leads to a method handle of a known kind and from
    there to a member. -/
theorem handleAt_eq_ok_iff {h : Handle} : handleAt pool index = .ok h ↔
    ∃ reference, pool.get index = .ok (.methodHandle h.kind.code reference) ∧
      pool.member reference = .ok h.target := by
  unfold handleAt
  constructor
  · intro hh
    obtain ⟨c, hc, hh⟩ := exists_of_bind_ok hh
    cases c
    case methodHandle kind reference =>
      simp only at hh
      split at hh
      · rename_i k hk
        obtain ⟨target, htarget, hh⟩ := exists_of_bind_ok hh
        cases hh
        rw [HandleKind.ofCode?_eq_some_iff] at hk
        subst hk
        exact ⟨reference, hc, htarget⟩
      · cases hh
    all_goals cases hh
  · rintro ⟨reference, hget, htarget⟩
    rw [hget]
    simp only [bind, Except.bind, HandleKind.ofCode?_code, htarget]
    rfl

theorem handleAt_within (hp : pool.Within pool') {h : Handle} (hh : handleAt pool index = .ok h) :
    handleAt pool' index = .ok h := by
  rw [handleAt_eq_ok_iff] at hh ⊢
  obtain ⟨reference, hget, htarget⟩ := hh
  exact ⟨reference, hp.get hget, hp.member htarget⟩

theorem argumentAt_eq_handle_iff {h : Handle} :
    argumentAt pool index = .ok (.handle h) ↔ handleAt pool index = .ok h := by
  constructor
  · intro ha
    unfold argumentAt at ha
    obtain ⟨c, hc, ha⟩ := exists_of_bind_ok ha
    cases c
    case methodHandle kind reference =>
      obtain ⟨h', hh, ha⟩ := exists_of_bind_ok ha
      cases ha
      exact hh
    case methodType descriptor =>
      obtain ⟨_, _, ha⟩ := exists_of_bind_ok ha
      cases ha
    all_goals cases ha
  · intro hh
    obtain ⟨reference, hget, _⟩ := handleAt_eq_ok_iff.1 hh
    unfold argumentAt
    rw [hget]
    simp only [bind, Except.bind, hh]
    rfl

theorem argumentAt_within (hp : pool.Within pool') {a : BootstrapArgument}
    (ha : argumentAt pool index = .ok a) : argumentAt pool' index = .ok a := by
  cases a with
  | handle h =>
      exact argumentAt_eq_handle_iff.2 (handleAt_within hp (argumentAt_eq_handle_iff.1 ha))
  | methodType descriptor =>
      refine hp.bind ha fun c hc => ?_
      cases c
      case methodHandle =>
        obtain ⟨_, _, hc⟩ := exists_of_bind_ok hc
        cases hc
      case methodType =>
        obtain ⟨text, htext, hc⟩ := exists_of_bind_ok hc
        cases hc
        simp only [hp.text htext]
        rfl
      all_goals cases hc
  | constant i =>
      refine hp.bind ha fun c hc => ?_
      cases c
      case methodHandle =>
        obtain ⟨_, _, hc⟩ := exists_of_bind_ok hc
        cases hc
      case methodType =>
        obtain ⟨_, _, hc⟩ := exists_of_bind_ok hc
        cases hc
      all_goals exact hc

/-! ## 3. Calls -/

/-- Whether an entry is a reference to a field. -/
def isFieldReference : Constant → Bool
  | .field .. => true
  | _ => false

/-- **A direct call is looked up** when its number leads to a method, and its opcode is known. -/
theorem directCallAt_eq_ok_iff {c : Code.CallBytes} {placed : PlacedCall} :
    directCallAt pool c = .ok placed ↔
      ∃ constant kind target, pool.get c.index = .ok constant ∧ isFieldReference constant = false ∧
        pool.member c.index = .ok target ∧ CallKind.opcode kind = c.opcode ∧
          placed = .direct ⟨⟨kind, target⟩, c.offset⟩ := by
  unfold directCallAt
  constructor
  · intro h
    obtain ⟨constant, hc, h⟩ := exists_of_bind_ok h
    have hf : isFieldReference constant = false := by
      cases constant
      case field => cases h
      all_goals rfl
    cases constant
    case field => cases hf
    all_goals
      obtain ⟨target, htarget, h⟩ := exists_of_bind_ok h
      split at h
      · rename_i kind hkind
        cases h
        exact ⟨_, kind, target, hc, hf, htarget, CallKind.ofOpcode?_eq_some_iff.1 hkind, rfl⟩
      · cases h
  · rintro ⟨constant, kind, target, hc, hf, htarget, hop, rfl⟩
    rw [hc]
    cases constant
    case field => cases hf
    all_goals
      simp only [bind, Except.bind, htarget, ← hop, CallKind.ofOpcode?_opcode]
      rfl

/-- **A dynamic call is looked up** when its number leads to a call site and from there to a row of
    the table of bootstrap methods, all of whose numbers can be looked up. -/
theorem dynamicCallAt_eq_ok_iff {bootstraps : List BootstrapEntry} {placed : PlacedCall} :
    dynamicCallAt pool bootstraps index = .ok placed ↔
      ∃ bootstrap signature entry call, pool.get index = .ok (.callSite bootstrap signature) ∧
        bootstraps[bootstrap.toNat]? = some entry ∧
        pool.nameAndType signature = .ok (call.name, call.descriptor) ∧
        handleAt pool entry.handle.value = .ok call.bootstrap ∧
        List.Forall₂ (fun a x => argumentAt pool (Placed.value a) = .ok x) entry.arguments
          call.arguments ∧
        placed = .dynamic call entry := by
  unfold dynamicCallAt
  constructor
  · intro h
    obtain ⟨constant, hc, h⟩ := exists_of_bind_ok h
    cases constant
    case callSite bootstrap signature =>
      simp only at h
      split at h
      · cases h
      · rename_i entry hentry
        obtain ⟨⟨name, descriptor⟩, hname, h⟩ := exists_of_bind_ok h
        obtain ⟨handle, hhandle, h⟩ := exists_of_bind_ok h
        obtain ⟨arguments, harguments, h⟩ := exists_of_bind_ok h
        cases h
        exact ⟨bootstrap, signature, entry, ⟨name, descriptor, handle, arguments⟩, hc, hentry,
          hname, hhandle, mapM_eq_ok_iff.1 harguments, rfl⟩
    all_goals cases h
  · rintro ⟨bootstrap, signature, entry, call, hc, hentry, hname, hhandle, harguments, rfl⟩
    rw [hc]
    simp only [bind, Except.bind, hentry, hname, hhandle, mapM_eq_ok_iff.2 harguments]
    rfl

end Layout

end ClassAccess
