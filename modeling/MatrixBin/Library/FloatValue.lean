import Mathlib.Data.Rat.Cast.Order

/-!
# Values of floating-point arithmetic

The values of a binary floating-point type and the four operations on them: each operation is
exact on rational numbers and then rounded, and what has no rational result is infinite or not a
number.  How results are rounded is a parameter (`Rounding`): a format rounds to its own values,
and `Rounding.exact` leaves every number as it is.

There is one zero: its sign only matters for a division by a zero that was computed, and a
divisor here is an integer or a constant.
-/

namespace MatrixBin
namespace Library

inductive FloatValue
  | nan
  | infinite (negative : Bool)
  | finite (value : ℚ)
deriving DecidableEq, Repr

/-- How the result of an operation is rounded. -/
class Rounding where
  round : ℚ → FloatValue

/-- Numbers as they are. -/
@[reducible] def Rounding.exact : Rounding where
  round := .finite

namespace FloatValue

instance (n : Nat) : OfNat FloatValue n := ⟨.finite n⟩

instance : Inhabited FloatValue := ⟨0⟩

theorem ofNat_eq (n : Nat) : (OfNat.ofNat n : FloatValue) = .finite n := rfl

@[simp] theorem zero_eq : (0 : FloatValue) = .finite 0 := by simp [ofNat_eq]

/-! ### Operations -/

section Operations

variable [Rounding]

def ofInt (n : Int) : FloatValue := Rounding.round n

def add : FloatValue → FloatValue → FloatValue
  | .finite x, .finite y => Rounding.round (x + y)
  | .finite _, .infinite n => .infinite n
  | .infinite n, .finite _ => .infinite n
  | .infinite m, .infinite n => if m = n then .infinite m else .nan
  | _, _ => .nan

def sub : FloatValue → FloatValue → FloatValue
  | .finite x, .finite y => Rounding.round (x - y)
  | .finite _, .infinite n => .infinite !n
  | .infinite n, .finite _ => .infinite n
  | .infinite m, .infinite n => if m = n then .nan else .infinite m
  | _, _ => .nan

def mul : FloatValue → FloatValue → FloatValue
  | .finite x, .finite y => Rounding.round (x * y)
  | .finite x, .infinite n => if x = 0 then .nan else .infinite (decide (x < 0) != n)
  | .infinite n, .finite x => if x = 0 then .nan else .infinite (decide (x < 0) != n)
  | .infinite m, .infinite n => .infinite (m != n)
  | _, _ => .nan

/-- A divisor 0 is the positive zero. -/
def div : FloatValue → FloatValue → FloatValue
  | .finite x, .finite y =>
      if y = 0 then
        if x = 0 then .nan else .infinite (decide (x < 0))
      else Rounding.round (x / y)
  | .finite _, .infinite _ => .finite 0
  | .infinite n, .finite y => .infinite (n != decide (y < 0))
  | _, _ => .nan

def abs : FloatValue → FloatValue
  | .finite x => .finite |x|
  | .infinite _ => .infinite false
  | .nan => .nan

/-- `<=` of C: a NaN is not comparable. -/
def leb : FloatValue → FloatValue → Bool
  | .nan, _ => false
  | _, .nan => false
  | .infinite true, _ => true
  | _, .infinite false => true
  | .finite x, .finite y => x ≤ y
  | _, _ => false

theorem div_finite
    {x y : ℚ}
    (hy : y ≠ 0) :
    div (.finite x) (.finite y) = Rounding.round (x / y) :=
  if_neg hy

end Operations

/-! ### Order -/

/-- The order of the numbers, with the infinite values at its ends.  A NaN is beside it. -/
inductive Le : FloatValue → FloatValue → Prop
  | nan : Le .nan .nan
  | bottom {x : FloatValue} (hx : x ≠ .nan) : Le (.infinite true) x
  | top {x : FloatValue} (hx : x ≠ .nan) : Le x (.infinite false)
  | finite {x y : ℚ} (hxy : x ≤ y) : Le (.finite x) (.finite y)

theorem Le.refl (x : FloatValue) : Le x x := by
  rcases x with _ | _ | x
  · exact .nan
  · rename_i negative
    cases negative with
    | false => exact .top (by simp)
    | true => exact .bottom (by simp)
  · exact .finite (le_refl x)

theorem Le.trans
    {x y z : FloatValue}
    (hxy : Le x y)
    (hyz : Le y z) :
    Le x z := by
  cases hxy with
  | nan => exact hyz
  | bottom hy =>
      refine .bottom ?_
      rintro rfl
      cases hyz with
      | nan => exact hy rfl
      | bottom hnan => exact hnan rfl
  | top hx =>
      cases hyz with
      | top hy => exact .top hx
  | finite hle =>
      cases hyz with
      | top hy => exact .top (by simp)
      | finite hle' => exact .finite (hle.trans hle')

theorem Le.antisymm
    {x y : FloatValue}
    (hxy : Le x y)
    (hyx : Le y x) :
    x = y := by
  cases hxy with
  | nan => rfl
  | bottom hy =>
      cases hyx
      rfl
  | top hx =>
      cases hyx
      rfl
  | finite hle =>
      cases hyx with
      | finite hle' => rw [le_antisymm hle hle']

instance : PartialOrder FloatValue where
  le := Le
  le_refl := Le.refl
  le_trans _ _ _ := Le.trans
  le_antisymm _ _ := Le.antisymm

@[simp] theorem finite_le_finite {x y : ℚ} : finite x ≤ finite y ↔ x ≤ y := by
  constructor
  · rintro ⟨⟩
    assumption
  · exact Le.finite

/-- A number below or above an infinite value only at the end of the order. -/
theorem infinite_le_finite {negative : Bool} {x : ℚ} :
    infinite negative ≤ finite x ↔ negative = true := by
  constructor
  · rintro ⟨⟩
    rfl
  · rintro rfl
    exact .bottom (by simp)

theorem finite_le_infinite {negative : Bool} {x : ℚ} :
    finite x ≤ infinite negative ↔ negative = false := by
  constructor
  · rintro ⟨⟩
    rfl
  · rintro rfl
    exact .top (by simp)

end FloatValue

end Library
end MatrixBin
