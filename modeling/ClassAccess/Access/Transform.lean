import ClassAccess.ClassFile.Event

/-!
# Access transforms

An access transform asks for a visibility, for a change of finality, for both or for nothing.

* `Transform.merge` -- two requests at once: the wider visibility, and removing `final` before
  adding it; a join, with `Transform.none` at the bottom;
* `Transform.apply` -- the access flags after the request;
* `Transform.token` and `Transform.ofToken` -- the request as a word of a directive.
-/

namespace ClassAccess

/-! ## 1. Visibility -/

/-- A visibility that is asked for, from none to the widest. -/
inductive Visibility
  | unchanged
  | privateAccess
  | packageAccess
  | protectedAccess
  | publicAccess
  deriving DecidableEq, Repr, Inhabited

namespace Visibility

/-- The place of a visibility in the order of width. -/
def rank : Visibility → Nat
  | unchanged => 0
  | privateAccess => 1
  | packageAccess => 2
  | protectedAccess => 3
  | publicAccess => 4

/-- The wider of two visibilities. -/
def max (a b : Visibility) : Visibility := if a.rank ≤ b.rank then b else a

/-- The word that asks for a visibility in a directive. -/
def keyword : Visibility → String
  | unchanged => ""
  | privateAccess => "private"
  | packageAccess => "default"
  | protectedAccess => "protected"
  | publicAccess => "public"

/-- The visibility a word of a directive asks for, if it is a word for one. -/
def ofKeyword? (word : String) : Option Visibility :=
  [unchanged, privateAccess, packageAccess, protectedAccess, publicAccess].find?
    (·.keyword == word)

/-- The name of a visibility in structured data. -/
def name : Visibility → String
  | unchanged => "none"
  | privateAccess => "private"
  | packageAccess => "package_private"
  | protectedAccess => "protected"
  | publicAccess => "public"

/-- The visibility with a name. -/
def ofName? (name : String) : Option Visibility :=
  [unchanged, privateAccess, packageAccess, protectedAccess, publicAccess].find?
    (·.name == name)

/-- The access flag that stands for a visibility. Package access has none. -/
def flag : Visibility → AccessFlags
  | privateAccess => 0x0002
  | protectedAccess => 0x0004
  | publicAccess => 0x0001
  | unchanged | packageAccess => 0

/-- The access flags that stand for some visibility. -/
def mask : AccessFlags := 0x0007

/-- The access flags after a visibility is asked for. -/
def apply (v : Visibility) (flags : AccessFlags) : AccessFlags :=
  if v = unchanged then flags else (flags &&& ~~~mask) ||| v.flag

end Visibility

/-! ## 2. Finality -/

/-- A change of finality that is asked for. -/
inductive Finality
  | unchanged
  | add
  | remove
  deriving DecidableEq, Repr, Inhabited

namespace Finality

/-- The place of a change in the order of preference. -/
def rank : Finality → Nat
  | unchanged => 0
  | add => 1
  | remove => 2

/-- The preferred one of two changes. -/
def max (a b : Finality) : Finality := if a.rank ≤ b.rank then b else a

/-- The end of a word that asks for a change. -/
def ending : Finality → String
  | unchanged => ""
  | add => "+f"
  | remove => "-f"

/-- The name of a change in structured data. -/
def name : Finality → String
  | unchanged => "none"
  | add => "add"
  | remove => "remove"

/-- The change with a name. -/
def ofName? (name : String) : Option Finality :=
  [unchanged, add, remove].find? (·.name == name)

/-- The access flag of what is final. -/
def flag : AccessFlags := 0x0010

/-- The access flags after a change is asked for. -/
def apply : Finality → AccessFlags → AccessFlags
  | unchanged, flags => flags
  | add, flags => flags ||| flag
  | remove, flags => flags &&& ~~~flag

end Finality

/-! ## 3. Transforms -/

/-- A request for a visibility and a change of finality. -/
structure Transform where
  visibility : Visibility := .unchanged
  finality : Finality := .unchanged
  deriving DecidableEq, Repr, Inhabited

namespace Transform

/-- The request for nothing. -/
def none : Transform := {}

/-- Whether nothing is asked for. -/
def isNone (t : Transform) : Bool := t = none

/-- Both requests at once. -/
def merge (a b : Transform) : Transform :=
  ⟨a.visibility.max b.visibility, a.finality.max b.finality⟩

/-- The access flags after the request. -/
def apply (t : Transform) (flags : AccessFlags) : AccessFlags :=
  t.finality.apply (t.visibility.apply flags)

/-- The request as a word of a directive. -/
def token (t : Transform) : String := t.visibility.keyword ++ t.finality.ending

/-- A word of a directive, cut into the part that asks for a visibility and the change of finality
    that its end asks for. -/
def splitToken (word : List Char) : List Char × Finality :=
  match word.reverse with
  | 'f' :: '-' :: rest => (rest.reverse, .remove)
  | 'f' :: '+' :: rest => (rest.reverse, .add)
  | _ => (word, .unchanged)

/-- The word for a visibility that a word of a directive starts with. -/
def tokenKeyword (word : String) : String := String.ofList (splitToken word.toList).1

/-- The request a word of a directive makes. A word for no visibility asks for none. -/
def ofToken (word : String) : Transform where
  visibility := (Visibility.ofKeyword? (tokenKeyword word)).getD .unchanged
  finality := (splitToken word.toList).2

/-- The word for a visibility in a word of a directive, if it is unknown. -/
def unknownKeyword? (word : String) : Option String :=
  match Visibility.ofKeyword? (tokenKeyword word) with
  | some _ => Option.none
  | Option.none => some (tokenKeyword word)

@[simp] theorem none_visibility : none.visibility = .unchanged := rfl

@[simp] theorem none_finality : none.finality = .unchanged := rfl

theorem isNone_iff {t : Transform} : t.isNone = true ↔ t = none := by simp [isNone]

/-- **Merging is a join**: it does not depend on order, grouping or repetition. -/
theorem merge_comm (a b : Transform) : a.merge b = b.merge a := by
  obtain ⟨v, f⟩ := a
  obtain ⟨w, g⟩ := b
  simp only [merge, mk.injEq]
  exact ⟨by cases v <;> cases w <;> rfl, by cases f <;> cases g <;> rfl⟩

theorem merge_assoc (a b c : Transform) : (a.merge b).merge c = a.merge (b.merge c) := by
  obtain ⟨v, f⟩ := a
  obtain ⟨w, g⟩ := b
  obtain ⟨x, h⟩ := c
  simp only [merge, mk.injEq]
  exact ⟨by cases v <;> cases w <;> cases x <;> rfl,
    by cases f <;> cases g <;> cases h <;> rfl⟩

@[simp] theorem merge_self (a : Transform) : a.merge a = a := by
  obtain ⟨v, f⟩ := a
  cases v <;> cases f <;> rfl

@[simp] theorem merge_none (a : Transform) : a.merge none = a := by
  obtain ⟨v, f⟩ := a
  cases v <;> cases f <;> rfl

@[simp] theorem none_merge (a : Transform) : none.merge a = a := by
  rw [merge_comm, merge_none]

end Transform

end ClassAccess
