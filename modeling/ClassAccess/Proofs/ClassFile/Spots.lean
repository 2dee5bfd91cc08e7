import ClassAccess.Proofs.ClassFile.Lookup
import ClassAccess.Proofs.ClassFile.Parts
import Mathlib.Data.List.Perm.Basic

/-!
# The spots of a class

A spot is an event of a class together with the place of what a revision may change in it.

* `Spot.event`, `Spot.own` -- the event, and the slots that belong to it alone;
* `Layout.spots`, `Layout.events_eq` -- **the events of a class are those of its spots**;
* `Layout.slots` -- all slots of a class: those of the spots, and those of the table of bootstrap
  methods, which several spots may share;
* `Layout.MadeFrom`, `ofBytes_ok` -- **how a layout was read**: what stands in front, then the
  parts, then the look-ups;
* `Layout.slots_perm` -- the slots of a class are those of its parts, in another order.
-/

namespace ClassAccess

open Outcome

/-! ## 1. Spots and their events -/

/-- The kind of an event: what an event is, without what it says. -/
inductive EventKind
  | header
  | innerClass
  | field
  | method
  | call
  | dynamicCall
  | finish
  deriving DecidableEq, Repr

/-- The kind of an event. -/
def Event.kind : Event → EventKind
  | header _ => .header
  | innerClass _ => .innerClass
  | field _ => .field
  | method _ => .method
  | call _ => .call
  | dynamicCall _ => .dynamicCall
  | finish => .finish

/-- An event of a class, and where it can be changed. -/
inductive Spot
  | header (p : Placed Header)
  | innerClass (p : Placed InnerClass)
  | field (p : Placed FieldDeclaration)
  | method (p : Placed MethodDeclaration)
  | call (p : Placed Call)
  | dynamicCall (call : DynamicCall) (entry : BootstrapEntry)

namespace Spot

/-- The event. -/
def event : Spot → Event
  | header p => .header p.value
  | innerClass p => .innerClass p.value
  | field p => .field p.value
  | method p => .method p.value
  | call p => .call p.value
  | dynamicCall c _ => .dynamicCall c

/-- The slots that no other spot has. -/
def own : Spot → List Slot
  | header p => [p.slot]
  | innerClass p => [p.slot]
  | field p => [p.slot]
  | method p => [p.slot]
  | call p => [.opcode p.offset p.value.kind.opcode]
  | dynamicCall _ _ => []

end Spot

/-- The spot of a call. -/
def PlacedCall.spot : PlacedCall → Spot
  | direct p => .call p
  | dynamic call entry => .dynamicCall call entry

/-- The spots of a method: its declaration and its calls. -/
def MethodLayout.spots (m : MethodLayout) : List Spot :=
  .method m.declaration :: m.calls.map PlacedCall.spot

namespace Layout

/-- The spots of a class, in the order of its events. -/
def spots (l : Layout) : List Spot :=
  .header l.header :: (l.innerClasses.map .innerClass ++ l.fields.map .field
    ++ l.methods.flatMap MethodLayout.spots)

/-- The slots of a class. -/
def slots (l : Layout) : List Slot :=
  l.spots.flatMap Spot.own ++ l.bootstraps.flatMap BootstrapEntry.slots

/-- **The events of a class are those of its spots**, and the one that ends it. -/
theorem events_eq (l : Layout) : l.events = l.spots.map Spot.event ++ [.finish] := by
  have hcalls : ∀ c : PlacedCall, c.spot.event = c.event := fun c => by cases c <;> rfl
  have hmethods : ∀ m : MethodLayout, m.spots.map Spot.event = m.events := fun m => by
    simp only [MethodLayout.spots, MethodLayout.events, List.map_cons, List.map_map,
      Function.comp_def, hcalls]
    rfl
  simp only [spots, events, List.map_cons, List.map_append, List.map_map, List.map_flatMap,
    Function.comp_def, hmethods]
  rfl

end Layout

/-! ## 2. How a layout was read -/

namespace Layout

/-- The parts from which a layout was made, once its calls were looked up. -/
structure MadeFrom (l : Layout) (parts : Parts) : Prop where
  header : l.header = parts.header
  fields : l.fields = parts.fields
  innerClasses : l.innerClasses = parts.tables.flatMap Prod.fst
  bootstraps : l.bootstraps = parts.tables.flatMap Prod.snd
  methods : parts.methods.mapM (resolveMethod l.pool l.bootstraps) = .ok l.methods

/-- The layout that is made from parts and methods whose calls are looked up. -/
def make (data : Bytes) (pool : ConstantPool) (poolEnd : Nat) (parts : Parts)
    (methods : List MethodLayout) : Layout where
  data := data
  pool := pool
  poolEnd := poolEnd
  header := parts.header
  innerClasses := parts.tables.flatMap Prod.fst
  fields := parts.fields
  methods := methods
  bootstraps := parts.tables.flatMap Prod.snd

/-- **A class file is read in three steps**: what stands in front, the parts, the look-ups. -/
theorem reading_eq (data : Bytes) :
    reading data = (do
      let x ← preamble
      let parts ← Parts.reading x.1 x.2.1
      let methods ← Reading.check
        (parts.methods.mapM (resolveMethod x.2.1 (parts.tables.flatMap Prod.snd)))
      return make data x.2.1 x.2.2 parts methods) := by
  simp only [reading, Parts.reading, bind_assoc, pure_bind]
  rfl

theorem ofBytes_ok {data : Bytes} {l : Layout} (h : ofBytes data = .ok l) :
    ∃ version s parts t, preamble ⟨0, data⟩ = .ok ((version, l.pool, l.poolEnd), s) ∧
      Parts.reading version l.pool s = .ok (parts, t) ∧ l.MadeFrom parts ∧ l.data = data := by
  unfold ofBytes at h
  split at h
  · rename_i l' t' hl
    cases h
    rw [reading_eq] at hl
    obtain ⟨⟨version, pool, poolEnd⟩, s, hs, hl⟩ := Reading.exists_of_bind_ok hl
    obtain ⟨parts, t, hparts, hl⟩ := Reading.exists_of_bind_ok hl
    obtain ⟨methods, t₁, hmethods, hl⟩ := Reading.exists_of_bind_ok hl
    cases hl
    have hmethods := (Reading.check_ok hmethods).1
    exact ⟨version, s, parts, t, hs, hparts, ⟨rfl, rfl, rfl, rfl, hmethods⟩, rfl⟩
  · cases h

theorem ofBytes_of_parts {data : Bytes} {version : Version} {pool : ConstantPool} {poolEnd : Nat}
    {s t : Source} {parts : Parts} {methods : List MethodLayout}
    (hs : preamble ⟨0, data⟩ = .ok ((version, pool, poolEnd), s))
    (hparts : Parts.reading version pool s = .ok (parts, t))
    (hmethods : parts.methods.mapM (resolveMethod pool (parts.tables.flatMap Prod.snd)) =
      .ok methods) :
    ofBytes data = .ok (make data pool poolEnd parts methods) := by
  unfold ofBytes
  rw [reading_eq, Source.ofBytes, Reading.bind_ok hs, Reading.bind_ok hparts, hmethods]
  rfl

end Layout

/-! ## 3. The slots of the spots -/

namespace Layout

variable {pool : ConstantPool} {bootstraps : List BootstrapEntry}

theorem resolve_dynamic {c : Code.CallBytes} (h : c.opcode = Code.dynamicOpcode) :
    resolve pool bootstraps c = dynamicCallAt pool bootstraps c.index := if_pos h

theorem resolve_direct {c : Code.CallBytes} (h : c.opcode ≠ Code.dynamicOpcode) :
    resolve pool bootstraps c = directCallAt pool c := if_neg h

/-- A call that is looked up has the slots it had before. -/
theorem own_of_resolve {c : Code.CallBytes} {placed : PlacedCall}
    (h : resolve pool bootstraps c = .ok placed) : placed.spot.own = c.slots := by
  unfold Code.CallBytes.slots
  by_cases hc : c.opcode = Code.dynamicOpcode
  · rw [resolve_dynamic hc, dynamicCallAt_eq_ok_iff] at h
    obtain ⟨_, _, _, _, _, _, _, _, _, rfl⟩ := h
    rw [if_pos hc]
    rfl
  · rw [resolve_direct hc, directCallAt_eq_ok_iff] at h
    obtain ⟨_, kind, _, _, _, _, hop, rfl⟩ := h
    rw [if_neg hc, ← hop]
    rfl

theorem own_of_calls {found : List Code.CallBytes} {placed : List PlacedCall}
    (h : found.mapM (resolve pool bootstraps) = .ok placed) :
    (placed.map PlacedCall.spot).flatMap Spot.own = found.flatMap Code.CallBytes.slots := by
  rw [mapM_eq_ok_iff] at h
  induction h with
  | nil => rfl
  | cons h _ ih => rw [List.map_cons, List.flatMap_cons, List.flatMap_cons, own_of_resolve h, ih]

theorem own_of_resolveMethod {m : Placed MethodDeclaration × List Code.CallBytes}
    {placed : MethodLayout} (h : resolveMethod pool bootstraps m = .ok placed) :
    placed.spots.flatMap Spot.own = Parts.methodSlots m := by
  obtain ⟨calls, hcalls, h⟩ := exists_of_bind_ok h
  cases h
  rw [MethodLayout.spots, List.flatMap_cons, own_of_calls hcalls]
  rfl

theorem own_of_methods {methods : List (Placed MethodDeclaration × List Code.CallBytes)}
    {placed : List MethodLayout} (h : methods.mapM (resolveMethod pool bootstraps) = .ok placed) :
    (placed.flatMap MethodLayout.spots).flatMap Spot.own = methods.flatMap Parts.methodSlots := by
  rw [mapM_eq_ok_iff] at h
  induction h with
  | nil => rfl
  | cons h _ ih =>
      rw [List.flatMap_cons, List.flatMap_append, List.flatMap_cons, own_of_resolveMethod h, ih]

/-- **The slots of a class are those of its parts**, in another order. -/
theorem slots_perm {l : Layout} {parts : Parts} (h : l.MadeFrom parts) :
    l.slots.Perm parts.slots := by
  have htables : (parts.tables.flatMap Parts.tableSlots).Perm
      (l.innerClasses.map Placed.slot ++ l.bootstraps.flatMap BootstrapEntry.slots) := by
    rw [h.innerClasses, h.bootstraps, List.map_flatMap, List.flatMap_assoc]
    exact (List.flatMap_append_perm _ _ _).symm
  have hown : l.slots = l.header.slot :: (l.innerClasses.map Placed.slot
      ++ (l.fields.map Placed.slot ++ parts.methods.flatMap Parts.methodSlots
        ++ l.bootstraps.flatMap BootstrapEntry.slots)) := by
    rw [slots, spots, List.flatMap_cons, List.flatMap_append, List.flatMap_append,
      own_of_methods h.methods, List.flatMap_map, List.flatMap_map, List.map_eq_flatMap,
      List.map_eq_flatMap]
    simp only [Spot.own, List.cons_append, List.nil_append, List.append_assoc]
  rw [hown, Parts.slots, h.header, ← h.fields]
  refine List.Perm.cons _ ((List.perm_append_comm_assoc _ _ _).trans ?_)
  exact (htables.append_left _).symm

end Layout

end ClassAccess
