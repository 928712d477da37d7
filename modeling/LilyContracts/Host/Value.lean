import Mathlib.Data.UInt
/-!
# Host values

The host types a contract passes around whose invariants the model relies on:
byte strings no longer than a `u32` can count, and `i128` amounts. Addresses
stay a type variable throughout, since contracts only ever compare them.
-/

namespace LilyContracts.Host

/-- A `soroban_sdk::Symbol`. -/
abbrev Symbol := String

/-- A `soroban_sdk::String`: bytes whose number fits `u32`, as `len()`
reports it. -/
structure HostString where
  bytes : List UInt8
  length_lt : bytes.length < 2 ^ 32
  deriving DecidableEq

namespace HostString

/-- `String::from_str(&env, "")`. -/
def empty : HostString := ⟨[], by decide⟩

/-- `String::len`. -/
def len (s : HostString) : UInt32 := UInt32.ofNatLT s.bytes.length s.length_lt

theorem len_pos_iff {s : HostString} : 0 < s.len ↔ s ≠ empty := by
  obtain ⟨bytes, h⟩ := s
  rw [UInt32.lt_iff_toNat_lt]
  cases bytes with
  | nil => simp [len, empty]
  | cons b bs =>
    have hlt : bs.length + 1 < 2 ^ 32 := by simpa using h
    simp only [len, UInt32.toNat_ofNatLT, List.length_cons]
    simp [empty]

end HostString

/-- An `i128`. Contracts compare amounts and store them; arithmetic on them is
checked (`checkedMul`, `checkedDiv`), as the release profile's
`overflow-checks` make it. -/
structure I128 where
  val : Int
  ge_min : -2 ^ 127 ≤ val
  lt_max : val < 2 ^ 127
  deriving DecidableEq

namespace I128

/-- `i128::MAX`. -/
def maxValue : Int := 2 ^ 127 - 1

/-- `v` is representable as an `i128`. -/
def Fits (v : Int) : Prop := -2 ^ 127 ≤ v ∧ v ≤ maxValue

instance (v : Int) : Decidable (Fits v) := inferInstanceAs (Decidable (_ ∧ _))

/-- The `i128` of an integer, `none` when it overflows. -/
def ofInt? (v : Int) : Option I128 :=
  if h : Fits v then some ⟨v, h.1, Int.lt_of_le_of_lt h.2 (by decide)⟩ else none

/-- `a * b` under `overflow-checks`. -/
def checkedMul (a b : I128) : Option I128 := ofInt? (a.val * b.val)

/-- `a / b`: truncating division, trapping on a zero divisor and on
`i128::MIN / -1`. -/
def checkedDiv (a b : I128) : Option I128 :=
  if b.val = 0 then none else ofInt? (a.val.tdiv b.val)

/-- `a - b` under `overflow-checks`. -/
def checkedSub (a b : I128) : Option I128 := ofInt? (a.val - b.val)

/-- A `u32` cast to `i128`. -/
def ofUInt32 (n : UInt32) : I128 :=
  ⟨n.toNat, by omega, by have := n.toNat_lt; omega⟩

end I128

end LilyContracts.Host
