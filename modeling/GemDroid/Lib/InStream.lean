import Mathlib.Algebra.Group.Int.Defs
import Mathlib.Algebra.Group.Nat.Defs

/-! Text that is read number by number, and the variable that a failed reading leaves alone. -/

namespace InStream

/-- The characters that are skipped before a number. -/
def isSpace (c : Char) : Bool :=
  c == ' ' || decide (9 ≤ c.toNat ∧ c.toNat ≤ 13)

/-- The number that a row of digits stands for. -/
def decimal (digits : List Char) : Nat :=
  digits.foldl (fun value c => 10 * value + (c.toNat - 48)) 0

/-- What the next characters of a text are to a reader of numbers. -/
inductive Reading
  /-- A number, and the text after it. -/
  | number (n : Int) (rest : List Char)
  /-- No number, or one that does not fit; the value is stored all the same. -/
  | wrong (value : Int)
  /-- The text is over. -/
  | nothing
  deriving DecidableEq, Repr

/-- Split a sign off, and say whether it is negative. -/
def sign : List Char → Bool × List Char
  | '-' :: rest => (true, rest)
  | '+' :: rest => (false, rest)
  | rest => (false, rest)

/-- A signed number of 32 bits, or the bound that it exceeds. -/
def fitted (n : Int) (rest : List Char) : Reading :=
  if n < -2 ^ 31 then .wrong (-2 ^ 31)
  else if 2 ^ 31 - 1 < n then .wrong (2 ^ 31 - 1)
  else .number n rest

/-- What a text begins with, behind the white space. -/
def reading (text : List Char) : Reading :=
  match text.dropWhile isSpace with
  | [] => .nothing
  | c :: text =>
    let (negative, text) := sign (c :: text)
    match text.takeWhile Char.isDigit with
    | [] => .wrong 0
    | digits =>
      fitted (if negative then -(decimal digits : Int) else decimal digits)
        (text.dropWhile Char.isDigit)

end InStream

/-- A text that is read by the operator `>>` (`istringstream`). -/
structure InStream where
  rest : List Char
  /-- The end was not reached, and no reading has failed. -/
  good : Bool
  deriving DecidableEq, Repr

namespace InStream

variable {iss : InStream} {value n : Int} {rest : List Char}

def ofText (text : List Char) : InStream :=
  { rest := text, good := true }

/-- What the next reading of a stream finds, which is nothing once one has failed. -/
def next (iss : InStream) : Reading :=
  if iss.good then reading iss.rest else .nothing

/-- Read into a variable with some value (`operator>>`). -/
def getInt (value : Int) (iss : InStream) : Int × InStream :=
  match iss.next with
  | .number n rest => (n, { rest, good := !rest.isEmpty })
  | .wrong n => (n, { rest := [], good := false })
  | .nothing => (value, { rest := [], good := false })

/-- The stream gives some numbers one after another. -/
def Gives : InStream → List Int → Prop
  | _, [] => True
  | iss, n :: ns => ∃ rest, iss.next = .number n rest ∧
      Gives { rest, good := !rest.isEmpty } ns

theorem getInt_number (given : iss.next = .number n rest) (value : Int) :
    iss.getInt value = (n, { rest, good := !rest.isEmpty }) := by
  rw [getInt, given]

/-- Once the text is over, a variable that is read keeps its value. -/
theorem getInt_nothing (ended : iss.next = .nothing) (value : Int) :
    iss.getInt value = (value, { rest := [], good := false }) := by
  rw [getInt, ended]

theorem fitted_wrong (failed : fitted n rest = .wrong value) :
    value = -2 ^ 31 ∨ value = 2 ^ 31 - 1 := by
  unfold fitted at failed
  split at failed
  · exact Or.inl (Reading.wrong.inj failed).symm
  · split at failed
    · exact Or.inr (Reading.wrong.inj failed).symm
    · cases failed

/-- What is stored in place of a number that cannot be read is zero or a bound. -/
theorem value_of_wrong (failed : iss.next = .wrong value) :
    value = 0 ∨ value = -2 ^ 31 ∨ value = 2 ^ 31 - 1 := by
  unfold next at failed
  split at failed
  · unfold reading at failed
    split at failed
    · cases failed
    · dsimp only at failed
      split at failed
      · exact Or.inl (Reading.wrong.inj failed).symm
      · exact Or.inr (fitted_wrong failed)
  · cases failed

end InStream
