import Mathlib.Algebra.Group.Int.Defs
import Mathlib.Algebra.GroupWithZero.Nat
import PennCloud.Lib.Fields
import Std.Data.ExtTreeMap

/-!
# Strings, maps and integers of the source

A `std::string` is its list of bytes, each written as the character with that code; a `char*` is
the bytes before its terminating NUL. A `std::map` keyed by strings is a `Std.ExtTreeMap`, whose
`toList` is the iteration order of the source: increasing keys, compared byte by byte.
-/

namespace PennCloud

abbrev Str := List Char

abbrev Map (ν : Type) := Std.ExtTreeMap Str ν

/-- Why a run of the source stops without a result. -/
inductive Fault where
  /-- a null pointer is dereferenced -/
  | nullDeref
  /-- `vector::at` or `string::substr` throws `out_of_range` -/
  | outOfRange
  /-- `stoi` throws `invalid_argument` or `out_of_range` -/
  | badNumber
  /-- `string::resize` or `new char[n]` with a size that wrapped below zero -/
  | badLength
  /-- a signed counter passes the largest `int` -/
  | intOverflow
  /-- an iterator is advanced whose element has been erased -/
  | danglingIterator
  /-- an array is read or written behind its end -/
  | overrun
  /-- a format asks for an argument that is not there -/
  | badFormat
  /-- `exit` -/
  | exited
  /-- not an event of the source: the bound on the recursion depth was too small -/
  | outOfFuel
  deriving DecidableEq, Repr

/-- `p->…` for a pointer that may be null. -/
def deref {α : Type} : Option α → Except Fault α
  | some a => .ok a
  | none => .error .nullDeref

theorem deref_eq_ok {α : Type} {p : Option α} {a : α} : deref p = .ok a ↔ p = some a := by
  cases p with
  | none => simp [deref]
  | some b => simp [deref]

/-- `v.at(i)`. -/
def atIdx {α : Type} (v : List α) (i : Nat) : Except Fault α :=
  match v[i]? with
  | some a => .ok a
  | none => .error .outOfRange

/-! ### Fixed-width integers -/

/-- Conversion to a 32-bit `int`. -/
def toInt32 (x : Int) : Int := Int.bmod x (2 ^ 32)

/-- Conversion of a signed integer to `size_t`. -/
def toSize (x : Int) : Nat := (x % 2 ^ 64).toNat

/-- `x + n` for an `int` `x` and a `size_t` `n`: the sum is a `size_t`. -/
def sizeAdd (x : Int) (n : Nat) : Nat := (toSize x + n) % 2 ^ 64

/-- The largest `int`. -/
def intMax : Int := 2 ^ 31 - 1

/-- The values of an `int`. -/
def IsInt (n : Int) : Prop := -intMax - 1 ≤ n ∧ n ≤ intMax

instance (n : Int) : Decidable (IsInt n) := inferInstanceAs (Decidable (_ ∧ _))

theorem toInt32_of_range {x : Int} (hlow : -intMax - 1 ≤ x) (hhigh : x ≤ intMax) : toInt32 x = x := by
  simp only [intMax] at hlow hhigh
  rw [toInt32, Int.bmod_eq_of_le (by omega) (by omega)]

theorem toInt32_range (x : Int) : -intMax - 1 ≤ toInt32 x ∧ toInt32 x ≤ intMax := by
  have hlow := Int.le_bmod (x := x) (m := 2 ^ 32) (by decide)
  have hhigh := Int.bmod_lt (x := x) (m := 2 ^ 32) (by decide)
  simp only [toInt32, intMax]
  omega

theorem isInt_port (port : UInt16) : IsInt port.toNat := by
  have hport := port.toNat_lt
  simp only [IsInt, intMax]
  omega

/-! ### String operations

The loops `while ((pos = s.find(d)) != npos) { … s.substr(0, pos) …; s.erase(0, pos + 1); }` take the
fields `Fields.pieces d s` and leave `Fields.remainder d s`; one round of them is `Fields.cut d s`. -/

/-- `s.substr(pos, len)`. -/
def substr (s : Str) (pos len : Nat) : Except Fault Str :=
  if s.length < pos then .error .outOfRange else .ok ((s.drop pos).take len)

theorem substr_append (front rest : Str) :
    substr (front ++ rest) front.length ((front ++ rest).length - front.length) = .ok rest := by
  rw [substr, if_neg (by rw [List.length_append]; omega), List.drop_left, List.length_append, Nat.add_sub_cancel_left,
    List.take_length]

/-- The bytes a `char*` shows of a buffer: those before the first NUL. -/
def cstr (s : Str) : Str := s.takeWhile (· != '\x00')

/-- `dst.assign(s, 0, s.size() - 2)`: the subtraction wraps for a string shorter than two bytes, and
the whole string is taken. -/
def chopTwo (s : Str) : Str := if s.length < 2 then s else s.take (s.length - 2)

/-- `to_string(n)`. -/
def toStr (n : Int) : Str :=
  if n < 0 then '-' :: Nat.toDigits 10 n.natAbs else Nat.toDigits 10 n.natAbs

/-- `isspace` in the C locale. -/
def isSpace (c : Char) : Bool :=
  c = ' ' || c = '\t' || c = '\n' || c = '\x0b' || c = '\x0c' || c = '\r'

/-- A sign, if there is one, and what stands behind it. -/
def splitSign : Str → Bool × Str
  | '-' :: rest => (true, rest)
  | '+' :: rest => (false, rest)
  | rest => (false, rest)

/-- The number a string starts with, as `strtol` reads it: blanks, a sign, then digits. -/
def leadingInt (s : Str) : Option Int :=
  let (negative, s) := splitSign (s.dropWhile isSpace)
  let digits := s.takeWhile Char.isDigit
  if digits = [] then none
  else
    let n : Int := Nat.ofDigitChars 10 digits 0
    some (if negative then -n else n)

/-- `stoi(s)`. -/
def stoi (s : Str) : Except Fault Int :=
  match leadingInt s with
  | none => .error .badNumber
  | some n => if -intMax - 1 ≤ n ∧ n ≤ intMax then .ok n else .error .badNumber

/-- `strtol(s, NULL, 10)`: 0 where no number stands, and the nearest `long` to a number that is none. -/
def strtol (s : Str) : Int := max (-2 ^ 63) (min (2 ^ 63 - 1) ((leadingInt s).getD 0))

/-- `atoi(s)`, the `int` that `strtol` is converted to. -/
def atoi (s : Str) : Int := toInt32 (strtol s)

end PennCloud
