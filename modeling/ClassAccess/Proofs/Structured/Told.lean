import ClassAccess.Structured.Told
import Mathlib.Data.List.Basic

/-!
# What is left of what a format is told

* `value_record` -- the value of a record, name by name;
* `asValue_record_eq_value` -- a record with a single name that is not treated in a way of its own
  has the value that it always has;
* `isSome_tag?_pair` -- **two pieces make a tag exactly if the first one is an exclamation mark**
  and the other one is not empty;
* `kept_record` -- a record with a single name that is a tag is lost, and its value stands for it.
-/

namespace ClassAccess.Told

variable {lone : List String → Value → Value} {fields : List (List String × Told)}

/-! ## 1. Records -/

theorem join_singleton (name : String) : String.join [name] = name := String.empty_append

theorem asFields_eq_map (fields : List (List String × Told)) :
    asFields lone fields = fields.map fun e => (String.join e.1, e.2.asValue lone) := by
  induction fields with
  | nil => rfl
  | cons e fields ih =>
      rw [List.map_cons, ← ih]
      rfl

/-- **The value of a record** has the values of the record under their names. -/
theorem asValue_record (h : ∀ e, fields = [e] → ∀ value, lone e.1 value = single e.1 value) :
    (record fields).asValue lone =
      .record (fields.map fun e => (String.join e.1, e.2.asValue lone)) := by
  match fields, h with
  | [], _ => rfl
  | [e], h => exact h e rfl _
  | e :: e' :: fields, _ =>
      rw [← asFields_eq_map]
      rfl

theorem value_record (fields : List (List String × Told)) :
    (record fields).value = .record (fields.map fun e => (String.join e.1, e.2.value)) :=
  asValue_record fun _ _ _ => rfl

theorem asValue_record_eq_value
    (h : ∀ e, fields = [e] → ∀ value, lone e.1 value = single e.1 value)
    (hvalue : ∀ e ∈ fields, e.2.asValue lone = e.2.value) :
    (record fields).asValue lone = (record fields).value := by
  rw [asValue_record h, value_record, Value.record.injEq]
  exact List.map_congr_left fun e he => by rw [hvalue e he]

/-! ## 2. Tags -/

/-- A name in one piece is no tag. -/
theorem tag?_singleton (name : String) : tag? [name] = none := by
  by_cases h : name = "" <;> simp [tag?, h]

/-- **Two pieces make a tag exactly if the first one is an exclamation mark** and there is something
    behind it. -/
theorem isSome_tag?_pair {name rest : String} :
    (tag? [name, rest]).isSome = true ↔ name = "!" ∧ rest ≠ "" := by
  by_cases hname : name = ""
  · by_cases hrest : rest = "" <;> simp [tag?, hname, hrest]
  · by_cases hrest : rest = ""
    · simp [tag?, hname, hrest]
    · by_cases hmark : name = "!" <;> simp [tag?, hname, hrest, hmark]

/-- A record whose single name is a tag is lost. -/
theorem kept_record {pieces : List String} (h : (tag? pieces).isSome = true) (told : Told) :
    (record [(pieces, told)]).kept = told.kept := if_pos h

/-- A record whose names are no tags is kept if all its values are. -/
theorem kept_record_eq_value (h : ∀ e, fields = [e] → ¬ (tag? e.1).isSome = true)
    (hvalue : ∀ e ∈ fields, e.2.kept = e.2.value) :
    (record fields).kept = (record fields).value :=
  asValue_record_eq_value (fun e he _ => if_neg (h e he)) hvalue

end ClassAccess.Told
