import MatrixBin.Library.DecimalText

/-!
# The ranges of the GPIO module (`gpios.c`)

`read_gpio_config` reads two texts of the form `a:b` from the section `device` and sets the bits
from `a` to `b` of a mask of type `int`, one shift for each bit.  A text of another form leaves
its mask empty.

`gpioRight_iff` says for which texts the masks show the ranges.
-/

namespace MatrixBin
namespace Devdrvd

open Library

/-- `enum CONFIG_ERROR`, as far as `read_gpio_config` returns it. -/
inductive ConfigError
  | success
  | gpioRange
  | noGpioDevice
  | regcomp
  | malloc
deriving DecidableEq, Repr

/-- `struct devdrvd_gpio_connect`, each `int` as its 32 bits. -/
structure GpioConnect where
  maskIn : BitVec 32
  maskOut : BitVec 32
deriving DecidableEq

/-- `SET_BIT`; a shift by the width or more is not defined. -/
def setBit (val : BitVec 32) (bitIndex : Nat) : Option (BitVec 32) :=
  if bitIndex < 32 then some (val ||| 1#32 <<< bitIndex) else none

/-- The loop over so many bits, from `j` on. -/
def setBits : Nat → Nat → BitVec 32 → Option (BitVec 32)
  | 0, _, val => some val
  | k + 1, j, val => (setBit val j).bind fun val => setBits k (j + 1) val

/-- `^[0-9]{1,3}\:[0-9]{1,3}$` -/
def gpioPattern (gpio : List UInt8) : Bool :=
  let first := gpio.takeWhile isDigit
  match gpio.dropWhile isDigit with
  | [] => false
  | c :: second =>
      c = 0x3a && 1 ≤ first.length && first.length ≤ 3 &&
        (1 ≤ second.length && second.length ≤ 3 && second.all isDigit)

/-- The two numbers of a text of that form: `strtol(gpio, &pEnd, 10)`, `strtol(++pEnd, 0, 10)`. -/
def gpion (gpio : List UInt8) : ℤ × ℤ := (atoi gpio, atoi ((gpio.dropWhile isDigit).drop 1))

/-- What `read_gpio_config` does with one of the texts: the mask, or `CEGPIORANGE`; `none` is a
shift that is not defined. -/
def readRange (gpio : List UInt8) : Option (Except ConfigError (BitVec 32)) :=
  if gpioPattern gpio then
    if (gpion gpio).2 < (gpion gpio).1 then some (.error .gpioRange)
    else
      (setBits ((gpion gpio).2 - (gpion gpio).1 + 1).toNat (gpion gpio).1.toNat 0).map Except.ok
  else some (.ok 0)

/-- The section `device`: the values of `gpio-in` and `gpio-out`. -/
structure GpioDevice where
  gpioIn : List UInt8
  gpioOut : List UInt8

/-- `read_gpio_config`, with the results of `regcomp` and `malloc`: the code, and the structure
if there is one. -/
def readGpioConfig (regcomp malloc : Bool) (device : Option GpioDevice) :
    Option (ConfigError × Option GpioConnect) :=
  if !regcomp then some (.regcomp, none)
  else if !malloc then some (.malloc, none)
  else
    match device with
    | none => some (.noGpioDevice, some ⟨0, 0⟩)
    | some device =>
        (readRange device.gpioIn).bind fun read =>
          match read with
          | .error code => some (code, some ⟨0, 0⟩)
          | .ok maskIn =>
              (readRange device.gpioOut).map fun read =>
                match read with
                | .error code => (code, some ⟨maskIn, 0⟩)
                | .ok maskOut => (.success, some ⟨maskIn, maskOut⟩)

/-! ### The ranges -/

/-- One to three digits. -/
def IsShortNumber (ds : List UInt8) (n : Nat) : Prop :=
  1 ≤ ds.length ∧ ds.length ≤ 3 ∧ (∀ d ∈ ds, isDigit d = true) ∧ digitsValue ds = n

/-- A text `a:b`. -/
def IsRange (gpio : List UInt8) (a b : Nat) : Prop :=
  ∃ first second, gpio = first ++ 0x3a :: second ∧ IsShortNumber first a ∧ IsShortNumber second b

/-- The mask has the bits of the range. -/
def ShowsRange (mask : BitVec 32) (gpio : List UInt8) : Prop :=
  ∀ a b, IsRange gpio a b → ∀ k, mask.getLsbD k = true ↔ a ≤ k ∧ k ≤ b

/-- A range with a bit that an `int` does not have. -/
def TooWide (gpio : List UInt8) : Prop := ∃ a b, IsRange gpio a b ∧ a ≤ b ∧ 32 ≤ b

def Reversed (gpio : List UInt8) : Prop := ∃ a b, IsRange gpio a b ∧ b < a

/-- Every shift is defined, a range that is too wide is refused, and the masks of accepted texts
show their ranges. -/
def GpioRight (device : GpioDevice) : Prop :=
  ∃ code connect, readGpioConfig true true (some device) = some (code, some connect) ∧
    (TooWide device.gpioIn ∨ TooWide device.gpioOut → code = .gpioRange) ∧
    (code = .success →
      ShowsRange connect.maskIn device.gpioIn ∧ ShowsRange connect.maskOut device.gpioOut)

section GpioConfig

variable {gpio : List UInt8} {a b : Nat}

/-- `1 << j` has the bit `j` only. -/
theorem getLsbD_shiftOne
    {j : Nat}
    (hj : j < 32)
    (k : Nat) :
    (1#32 <<< j).getLsbD k = decide (k = j) := by
  rw [BitVec.getLsbD_shiftLeft, BitVec.getLsbD_one, Bool.eq_iff_iff]
  simp only [Bool.and_eq_true, decide_eq_true_eq, Bool.not_eq_true', decide_eq_false_iff_not]
  omega

/-- The loop sets the bits that it runs over, if all of them are bits of the mask. -/
theorem setBits_eq
    {n j : Nat}
    (h : j + n ≤ 32)
    (val : BitVec 32) :
    ∃ val', setBits n j val = some val' ∧
      ∀ k, val'.getLsbD k = (val.getLsbD k || decide (j ≤ k ∧ k < j + n)) := by
  induction n generalizing j val with
  | zero =>
      refine ⟨val, rfl, fun k => ?_⟩
      rw [decide_eq_false (by omega), Bool.or_false]
  | succ n ih =>
      have hj : j < 32 := by omega
      obtain ⟨val', hval', hbits⟩ := ih (j := j + 1) (by omega) (val ||| 1#32 <<< j)
      refine ⟨val', ?_, fun k => ?_⟩
      · rw [setBits, setBit, if_pos hj, Option.bind_some]
        exact hval'
      · rw [hbits, BitVec.getLsbD_or, getLsbD_shiftOne hj, Bool.or_assoc, ← Bool.decide_or]
        congr 2
        rw [eq_iff_iff]
        omega

theorem setBits_none
    {n j : Nat}
    (hn : 0 < n)
    (h : 32 < j + n)
    (val : BitVec 32) :
    setBits n j val = none := by
  induction n generalizing j val with
  | zero => omega
  | succ n ih =>
      rw [setBits, setBit]
      split_ifs with hj
      · exact ih (by omega) (by omega) _
      · rfl

/-! ### The texts -/

theorem IsShortNumber.ne_nil
    {ds : List UInt8}
    (h : IsShortNumber ds a) :
    ds ≠ [] :=
  List.length_pos_iff.mp h.1

theorem IsShortNumber.lt
    {ds : List UInt8}
    (h : IsShortNumber ds a) :
    a < 10 ^ 3 := by
  obtain ⟨-, hlen, hds, rfl⟩ := h
  exact lt_of_lt_of_le (digitsValue_lt hds) (Nat.pow_le_pow_right (by omega) hlen)

/-- What the function reads of a text `a:b`. -/
theorem IsRange.read
    (h : IsRange gpio a b) :
    gpioPattern gpio = true ∧ gpion gpio = ((a : ℤ), (b : ℤ)) := by
  obtain ⟨first, second, rfl, hfirst, hsecond⟩ := h
  have hcolon : isDigit 0x3a = false := by decide
  have htake : (first ++ 0x3a :: second).takeWhile isDigit = first :=
    takeWhile_digits hfirst.2.2.1 hcolon
  have hdrop : (first ++ 0x3a :: second).dropWhile isDigit = 0x3a :: second :=
    dropWhile_digits hfirst.2.2.1 hcolon
  have hall : second.all isDigit = true := List.all_eq_true.mpr hsecond.2.2.1
  have ha := hfirst.lt
  have hb := hsecond.lt
  constructor
  · rw [gpioPattern, htake, hdrop]
    simp [hfirst.1, hfirst.2.1, hsecond.1, hsecond.2.1, hall]
  · have hsign : readSign ((first ++ 0x3a :: second).dropWhile isSpace) =
        (false, first ++ 0x3a :: second) :=
      readSign_digits hfirst.ne_nil hfirst.2.2.1
    have hfits : digitsValue ((first ++ 0x3a :: second).takeWhile isDigit) < 2 ^ 31 := by
      rw [htake, hfirst.2.2.2]
      omega
    rw [gpion, hdrop, List.drop_one, List.tail_cons, atoi_of_fits hsign hfits, htake,
      hfirst.2.2.2, atoi_digits hsecond.2.2.1 (by rw [hsecond.2.2.2]; omega), hsecond.2.2.2]
    rfl

/-- The pattern matches the texts `a:b` only. -/
theorem exists_range_of_pattern
    (h : gpioPattern gpio = true) :
    ∃ a b, IsRange gpio a b := by
  rw [gpioPattern] at h
  split at h
  · exact absurd h (by simp)
  · rename_i c second hdrop
    simp only [Bool.and_eq_true, decide_eq_true_eq] at h
    obtain ⟨⟨⟨hc, hfirst⟩, hfirst'⟩, ⟨hsecond, hsecond'⟩, hall⟩ := h
    refine ⟨_, _, gpio.takeWhile isDigit, second, ?_, ⟨hfirst, hfirst', ?_, rfl⟩,
      ⟨hsecond, hsecond', List.all_eq_true.mp hall, rfl⟩⟩
    · rw [← hc, ← hdrop, List.takeWhile_append_dropWhile]
    · exact fun d hd => List.mem_takeWhile_imp hd

theorem IsRange.unique
    {a' b' : Nat}
    (h : IsRange gpio a b)
    (h' : IsRange gpio a' b') :
    a' = a ∧ b' = b := by
  have heq := h'.read.2.symm.trans h.read.2
  rw [Prod.mk.injEq] at heq
  exact ⟨by exact_mod_cast heq.1, by exact_mod_cast heq.2⟩

/-! ### One text -/

theorem readRange_reversed
    (h : Reversed gpio) :
    readRange gpio = some (.error .gpioRange) := by
  obtain ⟨a, b, hrange, hlt⟩ := h
  obtain ⟨hpattern, hnumbers⟩ := hrange.read
  rw [readRange, if_pos hpattern, hnumbers, if_pos (Int.ofNat_lt.mpr hlt)]

theorem readRange_tooWide
    (h : TooWide gpio) :
    readRange gpio = none := by
  obtain ⟨a, b, hrange, hle, hwide⟩ := h
  obtain ⟨hpattern, hnumbers⟩ := hrange.read
  rw [readRange, if_pos hpattern, hnumbers]
  simp only
  rw [if_neg (by omega), setBits_none (by omega) (by omega)]
  rfl

/-- A text that is neither reversed nor too wide gives the mask of its range. -/
theorem readRange_fits
    (hreversed : ¬ Reversed gpio)
    (hwide : ¬ TooWide gpio) :
    ∃ mask, readRange gpio = some (.ok mask) ∧ ShowsRange mask gpio := by
  by_cases hpattern : gpioPattern gpio = true
  · obtain ⟨a, b, hrange⟩ := exists_range_of_pattern hpattern
    have hle : a ≤ b := by
      by_contra hlt
      exact hreversed ⟨a, b, hrange, by omega⟩
    have hb : b < 32 := by
      by_contra hno
      exact hwide ⟨a, b, hrange, hle, by omega⟩
    have hcount : ((b : ℤ) - a + 1).toNat = b + 1 - a := by omega
    obtain ⟨mask, hmask, hbits⟩ := setBits_eq (n := b + 1 - a) (j := a) (by omega) 0
    refine ⟨mask, ?_, ?_⟩
    · rw [readRange, if_pos hpattern, hrange.read.2]
      simp only
      rw [if_neg (by omega), hcount, Int.toNat_natCast, hmask]
      rfl
    · intro a' b' hrange' k
      obtain ⟨rfl, rfl⟩ := hrange.unique hrange'
      rw [hbits]
      simp only [BitVec.ofNat_eq_ofNat, BitVec.getLsbD_zero, Bool.false_or, decide_eq_true_eq]
      omega
  · refine ⟨0, if_neg hpattern, fun a b hrange => absurd hrange.read.1 hpattern⟩

theorem not_tooWide_of_reversed
    (h : Reversed gpio) :
    ¬ TooWide gpio := by
  rintro ⟨a, b, hrange, hle, -⟩
  obtain ⟨a', b', hrange', hlt⟩ := h
  obtain ⟨rfl, rfl⟩ := hrange.unique hrange'
  omega

/-- **The ranges of the GPIO module.**  The function does what it is for exactly if `gpio-in` is
refused as reversed, or neither of the two ranges has a bit that an `int` does not have. -/
theorem gpioRight_iff
    (device : GpioDevice) :
    GpioRight device ↔
      Reversed device.gpioIn ∨ ¬ TooWide device.gpioIn ∧ ¬ TooWide device.gpioOut := by
  have hconfig : readGpioConfig true true (some device) =
      (readRange device.gpioIn).bind fun read =>
        match read with
        | .error code => some (code, some ⟨0, 0⟩)
        | .ok maskIn =>
            (readRange device.gpioOut).map fun read =>
              match read with
              | .error code => (code, some ⟨maskIn, 0⟩)
              | .ok maskOut => (.success, some ⟨maskIn, maskOut⟩) := rfl
  rw [GpioRight, hconfig]
  by_cases hreversed : Reversed device.gpioIn
  · rw [readRange_reversed hreversed]
    exact iff_of_true ⟨.gpioRange, ⟨0, 0⟩, rfl, fun _ => rfl, fun h => absurd h (by simp)⟩
      (Or.inl hreversed)
  · by_cases hwide : TooWide device.gpioIn
    · rw [readRange_tooWide hwide]
      refine iff_of_false ?_ (fun h => h.elim hreversed fun h => h.1 hwide)
      rintro ⟨code, connect, hnone, -⟩
      exact absurd hnone (by simp)
    · obtain ⟨maskIn, hmaskIn, hshowsIn⟩ := readRange_fits hreversed hwide
      rw [hmaskIn]
      by_cases hreversed' : Reversed device.gpioOut
      · rw [readRange_reversed hreversed']
        exact iff_of_true ⟨.gpioRange, ⟨maskIn, 0⟩, rfl, fun _ => rfl, fun h => absurd h (by simp)⟩
          (Or.inr ⟨hwide, not_tooWide_of_reversed hreversed'⟩)
      · by_cases hwide' : TooWide device.gpioOut
        · rw [readRange_tooWide hwide']
          refine iff_of_false ?_ (fun h => h.elim hreversed fun h => h.2 hwide')
          rintro ⟨code, connect, hnone, -⟩
          exact absurd hnone (by simp)
        · obtain ⟨maskOut, hmaskOut, hshowsOut⟩ := readRange_fits hreversed' hwide'
          rw [hmaskOut]
          exact iff_of_true ⟨.success, ⟨maskIn, maskOut⟩, rfl,
            fun h => h.elim (absurd · hwide) (absurd · hwide'), fun _ => ⟨hshowsIn, hshowsOut⟩⟩
            (Or.inr ⟨hwide, hwide'⟩)

/-- `gpio-in="0:7"` and `gpio-out="8:40"`: the loop shifts by 32. -/
theorem wide_range_undefined :
    ¬ GpioRight ⟨[0x30, 0x3a, 0x37], [0x38, 0x3a, 0x34, 0x30]⟩ := by
  rintro ⟨code, connect, hsome, -⟩
  have hnone : readGpioConfig true true
      (some ⟨[0x30, 0x3a, 0x37], [0x38, 0x3a, 0x34, 0x30]⟩) = none := by decide +kernel
  exact absurd (hnone.symm.trans hsome) (by simp)

end GpioConfig

end Devdrvd
end MatrixBin
