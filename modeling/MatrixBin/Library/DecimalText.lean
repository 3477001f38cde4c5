import Mathlib.Data.List.TakeWhile
import Mathlib.Data.Nat.Digits.Lemmas
import Mathlib.Data.Rat.Floor
import Mathlib.Tactic.FieldSimp
import Mathlib.Tactic.Linarith
import Mathlib.Tactic.Positivity
import Mathlib.Tactic.Ring

/-!
# Decimal numbers as ASCII text

The conversions `%u`, `%0wu` and `%.pf` of the C library's `printf`, and the readers
`strtoul` (base 10), `strtod` and `atoi`, over a list of bytes.  `strtoul` and `strtod` return
the value and the bytes that follow the number; they are `none` where the scan would
run past the last byte.  Numbers are rationals; the rounding to a float is up to the caller.

The results are the two round trips `strtoul_printNat` and `strtod_printFixed`: a
reader placed on a printed number that a foreign byte ends gives back the number.
-/

namespace MatrixBin
namespace Library

def isDigit (b : UInt8) : Bool := 0x30 ≤ b && b ≤ 0x39

def isSpace (b : UInt8) : Bool := b = 0x20 || (0x09 ≤ b && b ≤ 0x0d)

def digitByte (d : Nat) : UInt8 := UInt8.ofNat (0x30 + d)

def digitValue (b : UInt8) : Nat := b.toNat - 0x30

/-- The value of a string of digits, most significant first. -/
def digitsValue (ds : List UInt8) : Nat := Nat.ofDigits 10 (ds.map digitValue).reverse

/-- `%u` -/
def printNat (n : Nat) : List UInt8 :=
  if n = 0 then [0x30] else ((Nat.digits 10 n).map digitByte).reverse

/-- `%0wu` -/
def printPadded (width n : Nat) : List UInt8 :=
  List.replicate (width - (printNat n).length) 0x30 ++ printNat n

/-- The nearest natural number, ties to even. -/
def roundHalfEven (q : ℚ) : Nat :=
  let below := ⌊q⌋₊
  if q - below < 1 / 2 ∨ (q - below = 1 / 2 ∧ below % 2 = 0) then below else below + 1

/-- `%.pf`, for `p` positive. -/
def printFixed (places : Nat) (q : ℚ) : List UInt8 :=
  let m := roundHalfEven (|q| * 10 ^ places)
  (if q < 0 then [0x2d] else []) ++
    (printNat (m / 10 ^ places) ++ 0x2e :: printPadded places (m % 10 ^ places))

/-! ### The readers -/

/-- An optional sign: whether it is a minus, and the rest. -/
def readSign : List UInt8 → Bool × List UInt8
  | [] => (false, [])
  | b :: s => if b = 0x2d then (true, s) else if b = 0x2b then (false, s) else (false, b :: s)

def ulongMax : Nat := 2 ^ 64 - 1

/-- `strtoul` in base 10.  A minus sign negates modulo `2 ^ 64`; without a digit the
value is 0 and nothing is consumed. -/
def strtoul (s : List UInt8) : Option (Nat × List UInt8) :=
  let (neg, t) := readSign (s.dropWhile isSpace)
  let ds := t.takeWhile isDigit
  let n := digitsValue ds
  match t.dropWhile isDigit with
  | [] => none
  | b :: rest =>
      if ds = [] then some (0, s)
      else if ulongMax < n then some (ulongMax, b :: rest)
      else some (if neg then (ulongMax + 1 - n) % (ulongMax + 1) else n, b :: rest)

/-- `atoi` of a whole string: `strtol`, limited to a `long`, converted to `int`. -/
def atoi (s : List UInt8) : ℤ :=
  let (neg, t) := readSign (s.dropWhile isSpace)
  let n : ℤ := digitsValue (t.takeWhile isDigit)
  (max (-2 ^ 63) (min (2 ^ 63 - 1) (if neg then -n else n))).bmod (2 ^ 32)

/-- The digits after a point, and the rest. -/
def readFraction : List UInt8 → List UInt8 × List UInt8
  | [] => ([], [])
  | b :: s => if b = 0x2e then (s.takeWhile isDigit, s.dropWhile isDigit) else ([], b :: s)

/-- The exponent after an `e`; without a digit it is not part of the number. -/
def readExponent : List UInt8 → Option (ℤ × List UInt8)
  | [] => none
  | b :: s =>
      if b = 0x65 ∨ b = 0x45 then
        let (neg, t) := readSign s
        let ds := t.takeWhile isDigit
        match t.dropWhile isDigit with
        | [] => none
        | c :: rest =>
            if ds = [] then some (0, b :: s)
            else some (if neg then -(digitsValue ds : ℤ) else digitsValue ds, c :: rest)
      else some (0, b :: s)

/-- The forms of `strtod` that this reader leaves out: `0x…`, `inf`, `nan`. -/
def otherForm (t : List UInt8) : Bool :=
  match t with
  | [] => false
  | [b] => b ∈ [0x69, 0x49, 0x6e, 0x4e]
  | b :: c :: _ => b ∈ [0x69, 0x49, 0x6e, 0x4e] || (b = 0x30 && c ∈ [0x78, 0x58])

/-- `strtod` on decimal numbers. -/
def strtod (s : List UInt8) : Option (ℚ × List UInt8) :=
  let (neg, t) := readSign (s.dropWhile isSpace)
  let whole := t.takeWhile isDigit
  let (frac, rest) := readFraction (t.dropWhile isDigit)
  if otherForm t then none
  else if whole = [] ∧ frac = [] then (if rest = [] then none else some (0, s))
  else
    (readExponent rest).map fun (exponent, rest) =>
      let magnitude : ℚ := digitsValue (whole ++ frac) / 10 ^ frac.length * 10 ^ exponent
      (if neg then -magnitude else magnitude, rest)

/-- `atof` of a whole string, on decimal numbers; a text without a number is 0. -/
def atof (s : List UInt8) : ℚ := ((strtod (s ++ [0])).map Prod.fst).getD 0

/-! ### Digits -/

theorem digitByte_toNat
    {d : Nat}
    (hd : d < 10) :
    (digitByte d).toNat = 0x30 + d :=
  UInt8.toNat_ofNat_of_lt' (by change 0x30 + d < 256; omega)

@[simp] theorem digitValue_digitByte
    {d : Nat}
    (hd : d < 10) :
    digitValue (digitByte d) = d := by
  rw [digitValue, digitByte_toNat hd]
  omega

theorem isDigit_iff
    (b : UInt8) :
    isDigit b = true ↔ 0x30 ≤ b.toNat ∧ b.toNat ≤ 0x39 := by
  simp [isDigit, UInt8.le_iff_toNat_le]

theorem isDigit_digitByte
    {d : Nat}
    (hd : d < 10) :
    isDigit (digitByte d) = true := by
  rw [isDigit_iff, digitByte_toNat hd]
  omega

theorem isDigit_of_mem_printNat
    {n : Nat}
    {b : UInt8}
    (hb : b ∈ printNat n) :
    isDigit b = true := by
  rw [printNat] at hb
  split at hb
  · rw [List.mem_singleton.mp hb]
    decide
  · simp only [List.mem_reverse, List.mem_map] at hb
    obtain ⟨d, hd, rfl⟩ := hb
    exact isDigit_digitByte (Nat.digits_lt_base (by omega) hd)

theorem isDigit_of_mem_printPadded
    {width n : Nat}
    {b : UInt8}
    (hb : b ∈ printPadded width n) :
    isDigit b = true := by
  rcases List.mem_append.mp hb with hzero | hnum
  · rw [List.eq_of_mem_replicate hzero]
    decide
  · exact isDigit_of_mem_printNat hnum

theorem printNat_ne_nil
    (n : Nat) :
    printNat n ≠ [] := by
  rw [printNat]
  split
  · simp
  · simpa using Nat.digits_ne_nil_iff_ne_zero.mpr ‹_›

theorem length_printNat_le
    {n k : Nat}
    (hk : 0 < k)
    (hn : n < 10 ^ k) :
    (printNat n).length ≤ k := by
  rw [printNat]
  split
  · simpa using Nat.succ_le_of_lt hk
  · simpa using (Nat.digits_length_le_iff (by omega) n).mpr hn

theorem length_printNat_le_iff
    {n k : Nat}
    (hk : 0 < k) :
    (printNat n).length ≤ k ↔ n < 10 ^ k := by
  refine ⟨fun hlen => ?_, length_printNat_le hk⟩
  rw [printNat] at hlen
  split at hlen
  · rename_i hzero
    rw [hzero]
    positivity
  · rw [List.length_reverse, List.length_map] at hlen
    exact (Nat.digits_length_le_iff (by omega) n).mp hlen

theorem length_printPadded
    {width n : Nat}
    (hwidth : 0 < width)
    (hn : n < 10 ^ width) :
    (printPadded width n).length = width := by
  have := length_printNat_le hwidth hn
  simp only [printPadded, List.length_append, List.length_replicate]
  omega

theorem digitsValue_append
    (a b : List UInt8) :
    digitsValue (a ++ b) = digitsValue a * 10 ^ b.length + digitsValue b := by
  simp only [digitsValue, List.map_append, List.reverse_append, Nat.ofDigits_append,
    List.length_reverse, List.length_map]
  ring

theorem digitsValue_printNat
    (n : Nat) :
    digitsValue (printNat n) = n := by
  rw [printNat]
  split
  · simp_all [digitsValue, digitValue]
  · have hdigits : ((Nat.digits 10 n).map digitByte).map digitValue = Nat.digits 10 n := by
      rw [List.map_map, List.map_congr_left (g := id), List.map_id]
      intro d hd
      exact digitValue_digitByte (Nat.digits_lt_base (by omega) hd)
    rw [digitsValue, List.map_reverse, List.reverse_reverse, hdigits, Nat.ofDigits_digits]

theorem digitsValue_zeros
    (k : Nat) :
    digitsValue (List.replicate k 0x30) = 0 := by
  induction k with
  | zero => rfl
  | succ k ih =>
      rw [List.replicate_succ', digitsValue_append, ih]
      rfl

theorem digitsValue_printPadded
    (width n : Nat) :
    digitsValue (printPadded width n) = n := by
  rw [printPadded, digitsValue_append, digitsValue_zeros, digitsValue_printNat]
  omega

/-! ### A printed number that a foreign byte ends -/

section Scan

variable {ds : List UInt8} {b : UInt8} {rest : List UInt8}

theorem takeWhile_digits
    (hds : ∀ d ∈ ds, isDigit d = true)
    (hb : isDigit b = false) :
    (ds ++ b :: rest).takeWhile isDigit = ds := by
  simp [List.takeWhile_append_of_pos hds, hb]

theorem dropWhile_digits
    (hds : ∀ d ∈ ds, isDigit d = true)
    (hb : isDigit b = false) :
    (ds ++ b :: rest).dropWhile isDigit = b :: rest := by
  simp [List.dropWhile_append_of_pos hds, hb]

/-- A digit is neither a space nor a sign. -/
theorem readSign_digits
    (hne : ds ≠ [])
    (hds : ∀ d ∈ ds, isDigit d = true) :
    readSign ((ds ++ rest).dropWhile isSpace) = (false, ds ++ rest) := by
  obtain ⟨d, ds, rfl⟩ := List.exists_cons_of_ne_nil hne
  have hd := (isDigit_iff d).mp (hds d (by simp))
  have hspace : isSpace d = false := by
    simp only [isSpace, Bool.or_eq_false_iff, Bool.and_eq_false_iff, decide_eq_false_iff_not,
      UInt8.le_iff_toNat_le, ← UInt8.toNat_inj, UInt8.reduceToNat]
    omega
  have hminus : d ≠ 0x2d := by
    rintro rfl
    simp at hd
  have hplus : d ≠ 0x2b := by
    rintro rfl
    simp at hd
  simp [hspace, readSign, hminus, hplus]

end Scan

/-! ### `atoi` -/

section Atoi

variable {ds s : List UInt8}

theorem digitsValue_cons
    (d : UInt8)
    (ds : List UInt8) :
    digitsValue (d :: ds) = digitValue d * 10 ^ ds.length + digitsValue ds := by
  have hone : digitsValue [d] = digitValue d := by
    simp [digitsValue]
  rw [← List.singleton_append, digitsValue_append, hone]

theorem digitsValue_lt
    (hds : ∀ d ∈ ds, isDigit d = true) :
    digitsValue ds < 10 ^ ds.length := by
  induction ds with
  | nil => exact Nat.zero_lt_one
  | cons d ds ih =>
      obtain ⟨hd, hds⟩ := List.forall_mem_cons.mp hds
      have hrest := ih hds
      have hdigit := (isDigit_iff d).mp hd
      have hle : digitValue d * 10 ^ ds.length ≤ 9 * 10 ^ ds.length :=
        Nat.mul_le_mul_right _ (by rw [digitValue]; omega)
      rw [digitsValue_cons, List.length_cons, pow_succ]
      omega

/-- Leading zeros do not count. -/
theorem digitsValue_dropWhile_zeros
    (ds : List UInt8) :
    digitsValue (ds.dropWhile (· = 0x30)) = digitsValue ds := by
  induction ds with
  | nil => rfl
  | cons d ds ih =>
      rw [List.dropWhile_cons]
      split
      · rename_i hd
        have hzero : digitValue d = 0 := by
          rw [of_decide_eq_true hd]
          rfl
        rw [ih, digitsValue_cons, hzero, Nat.zero_mul, Nat.zero_add]
      · rfl

theorem digitsValue_pos_iff
    (hds : ∀ d ∈ ds, isDigit d = true) :
    0 < digitsValue ds ↔ ∃ d ∈ ds, d ≠ 0x30 := by
  induction ds with
  | nil => simp [digitsValue]
  | cons d ds ih =>
      obtain ⟨hd, hds⟩ := List.forall_mem_cons.mp hds
      have hdigit := (isDigit_iff d).mp hd
      have hvalue : 0 < digitValue d ↔ d ≠ 0x30 := by
        rw [digitValue, Ne, ← UInt8.toNat_inj]
        simp only [UInt8.reduceToNat]
        omega
      rw [digitsValue_cons, List.exists_mem_cons_iff, ← ih hds, ← hvalue]
      have hpow : 0 < 10 ^ ds.length := Nat.pow_pos (by omega)
      have hmul : 0 < digitValue d * 10 ^ ds.length ↔ 0 < digitValue d :=
        Nat.mul_pos_iff_of_pos_right hpow
      omega

/-- A number that an `int` can hold. -/
theorem atoi_of_fits
    {neg : Bool}
    {t : List UInt8}
    (hsign : readSign (s.dropWhile isSpace) = (neg, t))
    (hfits : digitsValue (t.takeWhile isDigit) < 2 ^ 31) :
    atoi s = if neg then -(digitsValue (t.takeWhile isDigit) : ℤ)
      else (digitsValue (t.takeWhile isDigit) : ℤ) := by
  rw [atoi, hsign]
  simp only
  generalize digitsValue (t.takeWhile isDigit) = n at hfits ⊢
  have hsmall : (n : ℤ) < 2 ^ 31 := by exact_mod_cast hfits
  cases neg with
  | false =>
      simp only [Bool.false_eq_true, if_false]
      rw [Int.bmod_def]
      omega
  | true =>
      simp only [if_true]
      rw [Int.bmod_def]
      omega

theorem atoi_digits
    (hds : ∀ d ∈ ds, isDigit d = true)
    (hfits : digitsValue ds < 2 ^ 31) :
    atoi ds = digitsValue ds := by
  have hall : ds.takeWhile isDigit = ds := List.takeWhile_eq_self_iff.mpr hds
  have hsign : readSign (ds.dropWhile isSpace) = (false, ds) := by
    by_cases hne : ds = []
    · subst hne
      rfl
    · have h : readSign ((ds ++ []).dropWhile isSpace) = (false, ds ++ []) :=
        readSign_digits hne hds
      rwa [List.append_nil] at h
  rw [atoi_of_fits hsign (by rwa [hall]), hall]
  rfl

theorem natAbs_atoi_lt
    (hlen : s.length ≤ 9) :
    (atoi s).natAbs < 10 ^ s.length := by
  obtain ⟨neg, t, hsign⟩ : ∃ neg t, readSign (s.dropWhile isSpace) = (neg, t) := ⟨_, _, rfl⟩
  have ht : t.length ≤ s.length := by
    have hdrop : (s.dropWhile isSpace).length ≤ s.length := (List.dropWhile_suffix _).length_le
    cases hrest : s.dropWhile isSpace with
    | nil =>
        rw [hrest] at hsign
        obtain ⟨-, rfl⟩ := Prod.mk.inj hsign
        exact Nat.zero_le _
    | cons b rest =>
        rw [hrest, List.length_cons] at hdrop
        rw [hrest, readSign] at hsign
        split at hsign
        · obtain ⟨-, rfl⟩ := Prod.mk.inj hsign
          omega
        · split at hsign
          · obtain ⟨-, rfl⟩ := Prod.mk.inj hsign
            omega
          · obtain ⟨-, rfl⟩ := Prod.mk.inj hsign
            exact hdrop
  have hdigits : ∀ d ∈ t.takeWhile isDigit, isDigit d = true := fun d hd => by
    have hdigit := List.mem_takeWhile_imp hd
    exact hdigit
  have hlt := digitsValue_lt hdigits
  have htake : (t.takeWhile isDigit).length ≤ s.length :=
    (List.takeWhile_prefix _).length_le.trans ht
  have hpow : 10 ^ (t.takeWhile isDigit).length ≤ 10 ^ s.length :=
    Nat.pow_le_pow_right (by omega) htake
  have hnine : 10 ^ s.length ≤ 10 ^ 9 := Nat.pow_le_pow_right (by omega) hlen
  rw [atoi_of_fits hsign (by omega)]
  split
  · omega
  · omega

/-- White space, a minus, and digits that are not all zero. -/
def IsNegativeNumber (s : List UInt8) : Prop :=
  ∃ t, s.dropWhile isSpace = 0x2d :: t ∧ ∃ d ∈ t.takeWhile isDigit, d ≠ 0x30

theorem atoi_neg_iff
    (hlen : s.length ≤ 9) :
    atoi s < 0 ↔ IsNegativeNumber s := by
  have hdigits (t : List UInt8) : ∀ d ∈ t.takeWhile isDigit, isDigit d = true :=
    fun d hd => List.mem_takeWhile_imp hd
  have hfits {t : List UInt8} (ht : t.length ≤ 9) :
      digitsValue (t.takeWhile isDigit) < 2 ^ 31 := by
    have hlt := digitsValue_lt (hdigits t)
    have hle : (t.takeWhile isDigit).length ≤ 9 :=
      (List.takeWhile_prefix _).length_le.trans ht
    have hpow : 10 ^ (t.takeWhile isDigit).length ≤ 10 ^ 9 := Nat.pow_le_pow_right (by omega) hle
    omega
  have hdrop : (s.dropWhile isSpace).length ≤ 9 := (List.dropWhile_suffix _).length_le.trans hlen
  rw [IsNegativeNumber]
  generalize hrest : s.dropWhile isSpace = rest at hdrop
  -- a text without a minus is not negative
  have hpositive {t : List UInt8} (hsign : readSign rest = (false, t)) (ht : t.length ≤ 9)
      (hminus : ∀ t, rest ≠ 0x2d :: t) :
      atoi s < 0 ↔ ∃ t, rest = 0x2d :: t ∧ ∃ d ∈ t.takeWhile isDigit, d ≠ 0x30 := by
    rw [atoi_of_fits (hrest ▸ hsign) (hfits ht)]
    refine iff_of_false ?_ ?_
    · simp
    · rintro ⟨t, heq, -⟩
      exact hminus t heq
  cases rest with
  | nil => exact hpositive rfl (by simp) (by simp)
  | cons b t =>
      rw [List.length_cons] at hdrop
      by_cases hminus : b = 0x2d
      · subst hminus
        have hsign : readSign (s.dropWhile isSpace) = (true, t) := by
          rw [hrest]
          rfl
        rw [atoi_of_fits hsign (hfits (by omega)), if_pos rfl]
        have hpos := digitsValue_pos_iff (hdigits t)
        constructor
        · intro hneg
          exact ⟨t, rfl, hpos.mp (by omega)⟩
        · rintro ⟨t', heq, hnonzero⟩
          obtain rfl : t = t' := (List.cons.inj heq).2
          have := hpos.mpr hnonzero
          omega
      · have hno : ∀ t', b :: t ≠ 0x2d :: t' := fun t' heq => hminus (List.cons.inj heq).1
        by_cases hplus : b = 0x2b
        · exact hpositive (t := t) (by simp [readSign, hplus]) (by omega) hno
        · exact hpositive (t := b :: t) (by simp [readSign, hminus, hplus]) (by simpa using hdrop)
            hno

end Atoi

theorem strtoul_digits
    {ds : List UInt8}
    {b : UInt8}
    {rest : List UInt8}
    (hne : ds ≠ [])
    (hds : ∀ d ∈ ds, isDigit d = true)
    (hb : isDigit b = false)
    (hmax : digitsValue ds ≤ ulongMax) :
    strtoul (ds ++ b :: rest) = some (digitsValue ds, b :: rest) := by
  simp only [strtoul, readSign_digits hne hds, takeWhile_digits hds hb, dropWhile_digits hds hb]
  simp [hne, Nat.not_lt.mpr hmax]

theorem strtoul_printNat
    {n : Nat}
    {b : UInt8}
    {rest : List UInt8}
    (hb : isDigit b = false)
    (hn : n ≤ ulongMax) :
    strtoul (printNat n ++ b :: rest) = some (n, b :: rest) := by
  have hvalue := digitsValue_printNat n
  rw [strtoul_digits (printNat_ne_nil n) (fun _ => isDigit_of_mem_printNat) hb (by omega), hvalue]

theorem strtoul_printPadded
    {width n : Nat}
    {b : UInt8}
    {rest : List UInt8}
    (hb : isDigit b = false)
    (hn : n ≤ ulongMax) :
    strtoul (printPadded width n ++ b :: rest) = some (n, b :: rest) := by
  have hvalue := digitsValue_printPadded width n
  have hne : printPadded width n ≠ [] := by
    simp [printPadded, printNat_ne_nil]
  rw [strtoul_digits hne (fun _ => isDigit_of_mem_printPadded) hb (by omega), hvalue]

/-! ### Fixed-point numbers -/

/-- A rational with at most so many decimals. -/
def HasDecimals (places : Nat) (q : ℚ) : Prop :=
  ∃ k : ℤ, q * 10 ^ places = k

theorem roundHalfEven_natCast
    (n : Nat) :
    roundHalfEven n = n := by
  simp [roundHalfEven]

theorem abs_roundHalfEven_sub_le
    {q : ℚ}
    (hq : 0 ≤ q) :
    |(roundHalfEven q : ℚ) - q| ≤ 1 / 2 := by
  have hle : (⌊q⌋₊ : ℚ) ≤ q := Nat.floor_le hq
  have hlt : q < ⌊q⌋₊ + 1 := Nat.lt_floor_add_one q
  rw [abs_le, roundHalfEven]
  split_ifs with hhalf
  · have hbelow : q - ⌊q⌋₊ ≤ 1 / 2 := hhalf.elim le_of_lt fun h => h.1.le
    constructor <;> linarith
  · have habove : 1 / 2 ≤ q - ⌊q⌋₊ := not_lt.mp fun h => hhalf (Or.inl h)
    push_cast
    constructor <;> linarith

/-- Nothing is rounded away from a number that has no further decimals. -/
theorem HasDecimals.roundHalfEven_eq
    {places : Nat}
    {q : ℚ}
    (h : HasDecimals places q) :
    (roundHalfEven (|q| * 10 ^ places) : ℚ) = |q| * 10 ^ places := by
  obtain ⟨k, hk⟩ := h
  have habs : |q| * 10 ^ places = (k.natAbs : ℚ) := by
    have hpow : |(10 : ℚ) ^ places| = 10 ^ places := abs_of_pos (by positivity)
    rw [← hpow, ← abs_mul, hk, Nat.cast_natAbs, Int.cast_abs]
  rw [habs, roundHalfEven_natCast]

theorem readSign_printed
    {neg : Bool}
    {ds rest : List UInt8}
    (hne : ds ≠ [])
    (hds : ∀ d ∈ ds, isDigit d = true) :
    readSign (((if neg then [0x2d] else []) ++ (ds ++ rest)).dropWhile isSpace) =
      (neg, ds ++ rest) := by
  cases neg with
  | false => simpa using readSign_digits hne hds
  | true => simp [isSpace, readSign]

theorem otherForm_digits_point
    {ds rest : List UInt8}
    (hne : ds ≠ [])
    (hds : ∀ d ∈ ds, isDigit d = true) :
    otherForm (ds ++ 0x2e :: rest) = false := by
  obtain ⟨d, ds, rfl⟩ := List.exists_cons_of_ne_nil hne
  have hd := (isDigit_iff d).mp (hds d (by simp))
  have hletter : d ∉ [(0x69 : UInt8), 0x49, 0x6e, 0x4e] := by
    simp [← UInt8.toNat_inj]
    omega
  cases ds with
  | nil => simp_all [otherForm]
  | cons c ds =>
      have hc := (isDigit_iff c).mp (hds c (by simp))
      have hx : c ∉ [(0x78 : UInt8), 0x58] := by
        simp [← UInt8.toNat_inj]
        omega
      simp_all [otherForm]

/-- The number that `%.pf` prints. -/
def fixedValue (places : Nat) (q : ℚ) : ℚ :=
  let magnitude : ℚ := roundHalfEven (|q| * 10 ^ places) / 10 ^ places
  if q < 0 then -magnitude else magnitude

theorem HasDecimals.fixedValue_eq
    {places : Nat}
    {q : ℚ}
    (h : HasDecimals places q) :
    fixedValue places q = q := by
  have hcancel : |q| * (10 : ℚ) ^ places / 10 ^ places = |q| := by field_simp
  simp only [fixedValue, h.roundHalfEven_eq, hcancel]
  by_cases hneg : q < 0
  · simp [hneg, abs_of_neg hneg]
  · simp [hneg, abs_of_nonneg (not_lt.mp hneg)]

theorem abs_fixedValue_sub_le
    (places : Nat)
    (q : ℚ) :
    |fixedValue places q - q| ≤ 1 / 2 / 10 ^ places := by
  have hpow : (0 : ℚ) < 10 ^ places := by positivity
  have hround := abs_roundHalfEven_sub_le (q := |q| * 10 ^ places) (by positivity)
  have hmagnitude : abs ((roundHalfEven (|q| * 10 ^ places) : ℚ) / 10 ^ places - |q|) ≤
      1 / 2 / 10 ^ places := by
    have hscale : (roundHalfEven (|q| * 10 ^ places) : ℚ) / 10 ^ places - |q| =
        (roundHalfEven (|q| * 10 ^ places) - |q| * 10 ^ places) / 10 ^ places := by
      field_simp
    rw [hscale, abs_div, abs_of_pos hpow]
    exact div_le_div_of_nonneg_right hround hpow.le
  simp only [fixedValue]
  split_ifs with hneg
  · rw [← abs_neg]
    rw [abs_of_neg hneg] at hmagnitude ⊢
    convert hmagnitude using 2
    ring
  · rwa [abs_of_nonneg (not_lt.mp hneg)] at hmagnitude ⊢

/-- The parts of the fixed-point text, with what stands behind it. -/
theorem printFixed_append
    (places : Nat)
    (q : ℚ)
    (more : List UInt8) :
    printFixed places q ++ more =
      (if decide (q < 0) then [0x2d] else []) ++
        (printNat (roundHalfEven (|q| * 10 ^ places) / 10 ^ places) ++
          0x2e :: (printPadded places (roundHalfEven (|q| * 10 ^ places) % 10 ^ places) ++
            more)) := by
  simp [printFixed]

/-- The fixed-point text is read as the number that it prints. -/
theorem strtod_printFixed_rounded
    {places : Nat}
    {b : UInt8}
    {rest : List UInt8}
    (hplaces : 0 < places)
    (q : ℚ)
    (hb : isDigit b = false)
    (hexp : b ≠ 0x65 ∧ b ≠ 0x45) :
    strtod (printFixed places q ++ b :: rest) = some (fixedValue places q, b :: rest) := by
  set m := roundHalfEven (|q| * 10 ^ places) with hm
  have hpow : 0 < 10 ^ places := by positivity
  have hfrac : (printPadded places (m % 10 ^ places)).length = places :=
    length_printPadded hplaces (Nat.mod_lt _ hpow)
  have hvalue : digitsValue
      (printNat (m / 10 ^ places) ++ printPadded places (m % 10 ^ places)) = m := by
    rw [digitsValue_append, hfrac, digitsValue_printNat, digitsValue_printPadded]
    exact Nat.div_add_mod' m (10 ^ places)
  have hwhole : ∀ d ∈ printNat (m / 10 ^ places), isDigit d = true :=
    fun _ => isDigit_of_mem_printNat
  have hpad : ∀ d ∈ printPadded places (m % 10 ^ places), isDigit d = true :=
    fun _ => isDigit_of_mem_printPadded
  have hpoint : isDigit 0x2e = false := by decide
  rw [printFixed_append, ← hm]
  simp only [strtod, readSign_printed (printNat_ne_nil _) hwhole, takeWhile_digits hwhole hpoint,
    dropWhile_digits hwhole hpoint, readFraction, takeWhile_digits hpad hb,
    dropWhile_digits hpad hb, otherForm_digits_point (printNat_ne_nil _) hwhole, if_true,
    printNat_ne_nil, readExponent, hexp, hvalue, hfrac, fixedValue, ← hm]
  simp

/-- **Round trip of the fixed-point text.** -/
theorem strtod_printFixed
    {places : Nat}
    {q : ℚ}
    {b : UInt8}
    {rest : List UInt8}
    (hplaces : 0 < places)
    (hq : HasDecimals places q)
    (hb : isDigit b = false)
    (hexp : b ≠ 0x65 ∧ b ≠ 0x45) :
    strtod (printFixed places q ++ b :: rest) = some (q, b :: rest) := by
  rw [strtod_printFixed_rounded hplaces q hb hexp, hq.fixedValue_eq]

theorem atof_printFixed
    {places : Nat}
    (hplaces : 0 < places)
    (q : ℚ) :
    atof (printFixed places q) = fixedValue places q := by
  rw [atof, strtod_printFixed_rounded hplaces q (by decide) (by decide)]
  rfl

theorem mem_printFixed
    {places : Nat}
    {q : ℚ}
    {b : UInt8}
    (hb : b ∈ printFixed places q) :
    isDigit b = true ∨ b = 0x2d ∨ b = 0x2e := by
  simp only [printFixed, List.mem_append, List.mem_cons] at hb
  rcases hb with hsign | hwhole | hpoint | hfrac
  · split at hsign
    · exact Or.inr (Or.inl (List.mem_singleton.mp hsign))
    · simp at hsign
  · exact Or.inl (isDigit_of_mem_printNat hwhole)
  · exact Or.inr (Or.inr hpoint)
  · exact Or.inl (isDigit_of_mem_printPadded hfrac)

/-- Rounding does not pass a natural number. -/
theorem roundHalfEven_le
    {q : ℚ}
    {n : Nat}
    (hq : q ≤ n) :
    roundHalfEven q ≤ n := by
  have hbelow : ⌊q⌋₊ ≤ n := Nat.floor_le_of_le hq
  rw [roundHalfEven]
  split_ifs with hhalf
  · exact hbelow
  · -- rounded up: there is a fraction, so that `n` is not the floor
    rcases Nat.lt_or_eq_of_le hbelow with hlt | heq
    · exact hlt
    · refine absurd (Or.inl ?_) hhalf
      rw [heq]
      have hzero : q - n ≤ 0 := sub_nonpos.mpr hq
      exact lt_of_le_of_lt hzero (by norm_num)

theorem length_printFixed_le
    {places k n : Nat}
    {q : ℚ}
    (hplaces : 0 < places)
    (hk : 0 < k)
    (hq : |q| ≤ n)
    (hn : n < 10 ^ k) :
    (printFixed places q).length ≤ k + places + 2 := by
  have hpow : 0 < 10 ^ places := by positivity
  have hround : roundHalfEven (|q| * 10 ^ places) ≤ n * 10 ^ places := by
    apply roundHalfEven_le
    push_cast
    exact mul_le_mul_of_nonneg_right hq (by positivity)
  rw [printFixed]
  set m := roundHalfEven (|q| * 10 ^ places)
  have hm : m < 10 ^ k * 10 ^ places :=
    lt_of_le_of_lt hround (Nat.mul_lt_mul_of_pos_right hn hpow)
  have hwhole : (printNat (m / 10 ^ places)).length ≤ k :=
    length_printNat_le hk ((Nat.div_lt_iff_lt_mul hpow).mpr hm)
  have hfrac := length_printPadded hplaces (Nat.mod_lt m hpow)
  have hsign : (if q < 0 then [(0x2d : UInt8)] else []).length ≤ 1 := by
    split <;> simp
  simp only [List.length_append, List.length_cons]
  omega

end Library
end MatrixBin
