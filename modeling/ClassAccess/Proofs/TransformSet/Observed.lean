import ClassAccess.Proofs.TransformSet.Codec
import ClassAccess.Proofs.TransformSet.Renaming
import ClassAccess.Proofs.TransformSet.Rule

/-!
# Sets that cannot be told apart

A set may store requests for nothing, and classes without requests. Whether two sets are the same
passes over them, and so does everything that is done with a set.

* `TransformSet.Alike` -- two sets that ask for the same wherever one looks;
* `same_iff_alike` -- **two sets are the same exactly if they are alike**;
* `transform_congr`, `renameBetween_congr` -- what is made of a class, and what is asked for in
  other names, is told by what a set asks for;
* `same_observed` -- **sets that are the same cannot be told apart**.
-/

namespace ClassAccess

namespace TransformSet

variable {s s' : TransformSet} {visited : String}

/-! ## 1. Looking up -/

/-- **Two sets that ask for the same wherever one looks**: for every class, and for every field and
    every method of it, by whatever name. What is not stored is asked for nothing. -/
structure Alike (s s' : TransformSet) : Prop where
  self : ∀ name, (s.get name).self = (s'.get name).self
  allFields : ∀ name, (s.get name).allFields = (s'.get name).allFields
  allMethods : ∀ name, (s.get name).allMethods = (s'.get name).allMethods
  field : ∀ name field, (s.get name).field field = (s'.get name).field field
  method : ∀ name signature, (s.get name).method signature = (s'.get name).method signature

/-- **Two sets are the same exactly if they are alike.** -/
theorem same_iff_alike : s.same s' = true ↔ s.Alike s' := by
  rw [same_iff]
  constructor
  · intro h
    exact ⟨fun name => h name .self, fun name => h name .allFields, fun name => h name .allMethods,
      fun name field => h name (.field field), fun name signature => h name (.method signature)⟩
  · intro h name target
    cases target with
    | self => exact h.self name
    | allFields => exact h.allFields name
    | allMethods => exact h.allMethods name
    | field field => exact h.field name field
    | method signature => exact h.method name signature

/-! ## 2. Applying to a class -/

namespace Alike

theorem widens_iff (h : s.Alike s') (target : Member) :
    s.Widens visited target ↔ s'.Widens visited target := by
  unfold Widens
  rw [h.allMethods, h.method]

theorem argumentRule_eq (h : s.Alike s') : s.argumentRule visited = s'.argumentRule visited := by
  funext argument
  cases argument with
  | handle handle =>
      unfold argumentRule
      simp only [h.widens_iff]
  | methodType | constant => rfl

/-- What becomes of an event is told by what the set asks for. -/
theorem rule_eq (h : s.Alike s') : s.rule visited = s'.rule visited := by
  funext e
  unfold rule
  cases e with
  | header | innerClass => simp only [h.self]
  | field => simp only [h.allFields, h.field]
  | method => simp only [h.allMethods, h.method]
  | call => simp only [h.widens_iff]
  | dynamicCall => simp only [h.argumentRule_eq]
  | finish => rfl

end Alike

/-- **Sets that are the same make the same of a class file**, or fail at it alike. -/
theorem transform_congr (h : s.same s' = true) (data : Bytes) :
    s.transform data = s'.transform data := by
  cases hl : Layout.ofBytes data with
  | error fault =>
      unfold transform
      rw [hl]
      rfl
  | ok l => rw [transform_eq s hl, transform_eq s' hl, (same_iff_alike.1 h).rule_eq]

/-! ## 3. Renaming -/

/-- Two renamings that come to the same: to sets that are the same, or to the same fault. -/
def SameOutcome : Except NameFault TransformSet → Except NameFault TransformSet → Prop
  | .ok out, .ok out' => out.same out' = true
  | .error fault, .error fault' => fault = fault'
  | _, _ => False

/-- **Sets that are the same come to the same in other names.** -/
theorem renameBetween_congr (h : s.same s' = true) (t : NameTable) (a b : String) :
    SameOutcome (s.renameBetween t a b) (s'.renameBetween t a b) := by
  unfold renameBetween
  cases space t a with
  | error fault => exact rfl
  | ok i =>
      cases space t b with
      | error fault => exact rfl
      | ok j =>
          show SameOutcome (if i = j then .ok s else .ok (s.rename t i j))
            (if i = j then .ok s' else .ok (s'.rename t i j))
          split
          · exact h
          · exact rename_same h

/-! ## 4. All that can be observed -/

/-- **Sets that are the same cannot be told apart.** Two sets are the same exactly if one finds the
    same in them wherever one looks. And then they are written alike, make the same of every class
    file, and come to the same in the names of every table. -/
theorem same_observed (s s' : TransformSet) :
    (s.same s' = true ↔ s.Alike s') ∧
      (s.same s' = true → s.text = s'.text ∧
        (∀ data, s.transform data = s'.transform data) ∧
        ∀ (t : NameTable) (a b : String),
          SameOutcome (s.renameBetween t a b) (s'.renameBetween t a b)) :=
  ⟨same_iff_alike, fun h => ⟨text_eq_of_same h, transform_congr h, renameBetween_congr h⟩⟩

/-- `publicShared` with a request for nothing stored for a field, and a class stored without
    requests. -/
def paddedShared : TransformSet :=
  (publicShared.mergeAt "A" (.field "f") .none).mergeAt "B" .self .none

theorem same_observed_paddedShared :
    publicShared ≠ paddedShared ∧ publicShared.Alike paddedShared ∧
      publicShared.text = paddedShared.text ∧
      (∀ data, publicShared.transform data = paddedShared.transform data) ∧
      ∀ (t : NameTable) (a b : String),
        SameOutcome (publicShared.renameBetween t a b) (paddedShared.renameBetween t a b) := by
  have hsame : publicShared.same paddedShared = true := by decide +kernel
  obtain ⟨halike, hobserved⟩ := same_observed publicShared paddedShared
  exact ⟨by decide +kernel, halike.1 hsame, hobserved hsame⟩

end TransformSet

end ClassAccess
