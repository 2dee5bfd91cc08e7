import ClassAccess.BigEndian
import ClassAccess.Fault

/-!
# Steps of a machine

Elsewhere in this library the bytes that are left are a list, and so are the rows that are still to
come. A machine has a file as a whole, and finds its bytes by numbers that it counts up, adds and
subtracts. Each of these steps is one that it may be unable to take.

* `Trap` -- why a step cannot be taken;
* `Machine` -- how steps end: with a value, with a fault, or in a trap;
* `nth`, `slice`, `set`, `setSlice` -- the elements of a row, by their numbers;
* `sum`, `product`, `difference`, `narrow` -- numbers made of numbers;
* `Words` -- how many words a machine has; `Fits` -- the rows that it can hold.

How many words a machine has is left open, but a word has at least 64 bits. Running out of memory is
no trap.
-/

namespace ClassAccess

/-! ## 1. How steps end -/

/-- Why a machine cannot take a step: there is no such element or no such part of a row, a number
    does not fit, or a loop has turned more often than it was to. -/
inductive Trap
  | element (place length : Nat)
  | part (first last length : Nat)
  | overflow (value : Int)
  | underflow (value less : Nat)
  | endless
  deriving DecidableEq, Repr

/-- How steps of a machine end. -/
inductive Machine (α : Type)
  | done (value : α)
  | failed (fault : Fault)
  | trapped (trap : Trap)
  deriving DecidableEq, Repr

namespace Machine

/-- Steps after each other, until one of them does not give a value. -/
protected def bind {α β : Type} (m : Machine α) (f : α → Machine β) : Machine β :=
  match m with
  | done a => f a
  | failed fault => failed fault
  | trapped trap => trapped trap

instance : Monad Machine where
  pure := done
  bind := Machine.bind

/-- What is known without any step that a machine may be unable to take. -/
def of {α : Type} : Except Fault α → Machine α
  | .ok a => done a
  | .error fault => failed fault

/-- What steps give, a fault included. -/
def attempt {α : Type} : Machine α → Machine (Except Fault α)
  | done a => done (.ok a)
  | failed fault => done (.error fault)
  | trapped trap => trapped trap

@[simp] theorem done_bind {α β : Type} (a : α) (f : α → Machine β) : (done a >>= f) = f a := rfl

instance : LawfulMonad Machine :=
  LawfulMonad.mk' Machine (fun x => by cases x <;> rfl) (fun _ _ => rfl)
    (fun x _ _ => by cases x <;> rfl)

end Machine

/-! ## 2. Numbers -/

/-- Half the number of words of a machine. A word has at least 64 bits. -/
class Words where
  half : Nat
  wide : 0x8000000000000000 ≤ half

/-- A machine with words of 64 bits. -/
@[reducible] def Words.bits64 : Words := ⟨0x8000000000000000, Nat.le_refl _⟩

namespace Machine

variable [Words]

/-- The number of words. -/
def words : Nat := 2 * Words.half

/-- A row that a machine can hold has fewer elements than half the number of words. -/
def Fits {α : Type} (row : List α) : Prop := row.length < Words.half

instance {α : Type} (row : List α) : Decidable (Fits row) := Nat.decLt _ _

/-- A number below a bound. -/
def below (bound n : Nat) : Machine Nat := if n < bound then done n else trapped (.overflow n)

/-- The sum of two words. -/
def sum (a b : Nat) : Machine Nat := below words (a + b)

/-- The product of two words. -/
def product (a b : Nat) : Machine Nat := below words (a * b)

/-- What is left of a word when another one is taken away. -/
def difference (a b : Nat) : Machine Nat :=
  if b ≤ a then done (a - b) else trapped (.underflow a b)

/-- A word as one of two bytes. -/
def narrow (n : Nat) : Machine UInt16 := do return (← below 0x10000 n).toUInt16

/-- A number of 64 bits with a sign. -/
def signed (v : Int) : Machine Int :=
  if -0x8000000000000000 ≤ v ∧ v < 0x8000000000000000 then done v else trapped (.overflow v)

/-- A number with a sign as a word, which has no fewer bits. -/
def unsigned (v : Int) : Machine Nat := if 0 ≤ v then done v.toNat else trapped (.overflow v)

/-! ## 3. Rows -/

section Rows

variable {α : Type}

/-- The element with a number. -/
def nth (row : List α) (i : Nat) : Machine α :=
  match row[i]? with
  | some a => done a
  | none => trapped (.element i row.length)

/-- The elements from one number up to another. -/
def slice (row : List α) (first last : Nat) : Machine (List α) :=
  if first ≤ last ∧ last ≤ row.length then done ((row.take last).drop first)
  else trapped (.part first last row.length)

/-- The row with a new element at a place. -/
def set (row : List α) (i : Nat) (a : α) : Machine (List α) :=
  if i < row.length then done (row.set i a) else trapped (.element i row.length)

/-- The row with new elements from one number up to another. -/
def setSlice (row : List α) (first last : Nat) (new : List α) : Machine (List α) :=
  if first ≤ last ∧ last ≤ row.length ∧ first + new.length = last then
    done (row.take first ++ new ++ row.drop last)
  else trapped (.part first last row.length)

end Rows

end Machine

end ClassAccess
