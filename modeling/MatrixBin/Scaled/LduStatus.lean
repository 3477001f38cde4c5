import MatrixBin.Scaled.DistributeWeight

/-!
# The status byte of a message (`ldu_macro.h`, `config.c`)

`loadConfig` copies the four texts of the Status section into four slots of `Length + 1`
bytes, and that of UnderLoad into the slot of OverLoad.  `DISTRIBUTE_WEIGHT` compares the first
character of each slot with the status byte, for the slots below `Length`: the number that
bounds the texts also bounds the slots.  A byte that is found in none of them counts as the
first, which is the stable one.
-/

namespace MatrixBin
namespace Scaled

open Library

/-- The Status section; a text that is not set is a null pointer. -/
structure StatusSection where
  position : Nat
  length : Nat
  stable : Option (List UInt8)
  unstable : Option (List UInt8)
  overLoad : Option (List UInt8)
  underLoad : Option (List UInt8)

/-- `enum estatus` -/
inductive Estatus
  | statusStable
  | statusUnstable
  | statusOverload
  | statusUnderload
deriving DecidableEq

def Estatus.val : Estatus → Nat
  | .statusStable => 0
  | .statusUnstable => 1
  | .statusOverload => 2
  | .statusUnderload => 3

/-- `strncpy(status[slot],text,status_len)`, if the text is set. -/
def copyStatus (len : Nat) (slot : Estatus) (text : Option (List UInt8))
    (status : List (List UInt8)) : List (List UInt8) :=
  match text with
  | none => status
  | some text => status.modify slot.val fun old => strncpyBytes len text ++ old.drop len

/-- The slots after `loadConfig`. -/
def StatusSection.load (sec : StatusSection) : List (List UInt8) :=
  copyStatus sec.length .statusOverload sec.underLoad
    (copyStatus sec.length .statusOverload sec.overLoad
      (copyStatus sec.length .statusUnstable sec.unstable
        (copyStatus sec.length .statusStable sec.stable
          (List.replicate 4 (List.replicate (sec.length + 1) 0)))))

/-- The loop over the slots: `istatus` after the first `k` of them; `none` if a slot is read
that does not exist. -/
def matchStatus (status : List (List UInt8)) (b : UInt8) : Nat → Option Nat
  | 0 => some Estatus.statusStable.val
  | k + 1 =>
      (matchStatus status b k).bind fun istatus =>
        (status[k]?).bind fun slot =>
          slot.head?.map fun first => if first = b then k else istatus

/-- `SET_BIT(val, bitIndex)` -/
def setBit (val : UInt32) (bitIndex : UInt32) : UInt32 := val ||| 1 <<< bitIndex

/-- `STABLE` -/
def stableBit : UInt32 := 0

/-- The status bits that `DISTRIBUTE_WEIGHT` sends. -/
def statusBits (status : List (List UInt8)) (len : Nat) (b : UInt8) : Option UInt32 :=
  (matchStatus status b len).map fun istatus =>
    if istatus = Estatus.statusStable.val then setBit 0 stableBit else 0

/-- `BIT_IS_SET(val, bitIndex)` -/
def bitIsSet (val : UInt32) (bitIndex : UInt32) : Bool := val &&& 1 <<< bitIndex ≠ 0

/-- `DISTRIBUTE_WEIGHT` up to `pack_weight`. -/
def distributeWeight (t : LduFields) (sec : StatusSection) (id : ℤ) (wtmsg stack : List UInt8) :
    Option WeightRecord :=
  (wtmsg[sec.position]?).bind fun b =>
    (statusBits sec.load sec.length b).bind fun status => weightRecord t id wtmsg stack status

theorem weightRecord_status
    {t : LduFields}
    {id : ℤ}
    {wtmsg stack : List UInt8}
    {status : UInt32}
    {r : WeightRecord}
    (hr : weightRecord t id wtmsg stack status = some r) :
    r.status = status := by
  obtain ⟨sweight, -, hrest⟩ := Option.bind_eq_some_iff.mp hr
  split at hrest
  · rw [← Option.some.inj hrest]
  · obtain ⟨sweight', -, rfl⟩ := Option.map_eq_some_iff.mp hrest
    rfl

/-- The record is sent with the bits of the status byte. -/
theorem distributeWeight_status
    {t : LduFields}
    {sec : StatusSection}
    {id : ℤ}
    {wtmsg stack : List UInt8}
    {r : WeightRecord}
    (hr : distributeWeight t sec id wtmsg stack = some r) :
    ∃ b, wtmsg[sec.position]? = some b ∧ statusBits sec.load sec.length b = some r.status := by
  obtain ⟨b, hb, hrest⟩ := Option.bind_eq_some_iff.mp hr
  obtain ⟨status, hstatus, hrecord⟩ := Option.bind_eq_some_iff.mp hrest
  exact ⟨b, hb, by rw [hstatus, weightRecord_status hrecord]⟩

/-! ### The slots -/

/-- The first characters of the four texts. -/
structure StatusSection.FirstChars
    (sec : StatusSection)
    (stable unstable overLoad underLoad : UInt8) : Prop where
  stable_eq : ∃ rest, sec.stable = some (stable :: rest)
  unstable_eq : ∃ rest, sec.unstable = some (unstable :: rest)
  overLoad_eq : ∃ rest, sec.overLoad = some (overLoad :: rest)
  underLoad_eq : ∃ rest, sec.underLoad = some (underLoad :: rest)
  distinct : [stable, unstable, overLoad, underLoad].Nodup
  no_zero : 0 ∉ [stable, unstable, overLoad, underLoad]
  length_pos : 1 ≤ sec.length

section Slots

variable {sec : StatusSection} {stable unstable overLoad underLoad : UInt8} {b : UInt8}

theorem head?_strncpyBytes
    {n : Nat}
    (hn : 1 ≤ n)
    {c : UInt8}
    (hc : c ≠ 0)
    (rest old : List UInt8) :
    (strncpyBytes n (c :: rest) ++ old).head? = some c := by
  obtain ⟨n, rfl⟩ := Nat.exists_eq_succ_of_ne_zero (Nat.ne_of_gt hn)
  simp [strncpyBytes, stringAt, hc]

/-- The text of UnderLoad stands in the slot of OverLoad, and its own slot is empty. -/
theorem StatusSection.FirstChars.load_heads
    (h : sec.FirstChars stable unstable overLoad underLoad) :
    sec.load.map List.head? = [some stable, some unstable, some underLoad, some 0] := by
  obtain ⟨⟨rest₀, h₀⟩, ⟨rest₁, h₁⟩, ⟨rest₂, h₂⟩, ⟨rest₃, h₃⟩, -, hzero, hlen⟩ := h
  simp only [List.mem_cons, List.not_mem_nil, or_false, not_or] at hzero
  obtain ⟨z₀, z₁, -, z₃⟩ := hzero
  simp [StatusSection.load, copyStatus, h₀, h₁, h₂, h₃, Estatus.val, List.modify,
    List.replicate_succ, head?_strncpyBytes hlen (Ne.symm z₀), head?_strncpyBytes hlen (Ne.symm z₁),
    head?_strncpyBytes hlen (Ne.symm z₃)]

theorem matchStatus_succ
    {status : List (List UInt8)}
    {k : Nat}
    {first : UInt8}
    (hhead : (status.map List.head?)[k]? = some (some first)) :
    matchStatus status b (k + 1) =
      (matchStatus status b k).map fun istatus => if first = b then k else istatus := by
  rw [List.getElem?_map, Option.map_eq_some_iff] at hhead
  obtain ⟨slot, hslot, hfirst⟩ := hhead
  rw [matchStatus]
  cases matchStatus status b k with
  | none => rfl
  | some istatus => simp [hslot, hfirst]

/-- A `Length` above the number of the slots reads a slot that does not exist. -/
theorem matchStatus_eq_none
    {status : List (List UInt8)}
    {k : Nat}
    (hk : status.length < k) :
    matchStatus status b k = none := by
  induction k with
  | zero => omega
  | succ k ih =>
      rw [matchStatus]
      by_cases hlast : status.length = k
      · rw [List.getElem?_eq_none (by omega)]
        simp
      · rw [ih (by omega)]
        rfl

/-- The slot that the loop ends with. -/
theorem StatusSection.FirstChars.matchStatus_eq
    (h : sec.FirstChars stable unstable overLoad underLoad)
    (b : UInt8) :
    matchStatus sec.load b 1 = some 0 ∧
      matchStatus sec.load b 2 = some (if unstable = b then 1 else 0) ∧
      matchStatus sec.load b 3 =
        some (if underLoad = b then 2 else if unstable = b then 1 else 0) ∧
      matchStatus sec.load b 4 =
        some (if 0 = b then 3 else if underLoad = b then 2 else if unstable = b then 1 else 0) := by
  have hheads := h.load_heads
  have h₁ : matchStatus sec.load b 1 = some 0 := by
    rw [matchStatus_succ (k := 0) (by rw [hheads]; rfl)]
    simp [matchStatus, Estatus.val]
  have h₂ : matchStatus sec.load b 2 = some (if unstable = b then 1 else 0) := by
    rw [matchStatus_succ (k := 1) (by rw [hheads]; rfl), h₁, Option.map_some]
  have h₃ : matchStatus sec.load b 3 =
      some (if underLoad = b then 2 else if unstable = b then 1 else 0) := by
    rw [matchStatus_succ (k := 2) (by rw [hheads]; rfl), h₂, Option.map_some]
  refine ⟨h₁, h₂, h₃, ?_⟩
  rw [matchStatus_succ (k := 3) (by rw [hheads]; rfl), h₃, Option.map_some]

end Slots

/-! ### The stable bit -/

/-- The status bits are computed without leaving the slots, and the stable bit is set exactly
for the first character of the text of Stable. -/
def ReportsStable (sec : StatusSection) (b : UInt8) : Prop :=
  ∃ status, statusBits sec.load sec.length b = some status ∧
    (bitIsSet status stableBit = true ↔ sec.stable.bind List.head? = some b)

/-- What a byte needs not to be reported as stable by mistake: to be that of Stable, or to be
found in another of the slots that are compared. -/
def Recognised (len : Nat) (stable unstable underLoad b : UInt8) : Prop :=
  b = stable ∨ 2 ≤ len ∧ b = unstable ∨ 3 ≤ len ∧ b = underLoad ∨ 4 ≤ len ∧ b = 0

theorem reportsStable_iff_matchStatus
    {sec : StatusSection}
    {b stable : UInt8}
    (hstable : sec.stable.bind List.head? = some stable) :
    ReportsStable sec b ↔
      ∃ istatus, matchStatus sec.load b sec.length = some istatus ∧
        (istatus = 0 ↔ b = stable) := by
  have hset : bitIsSet (setBit 0 stableBit) stableBit = true := by decide
  have hclear : bitIsSet 0 stableBit = false := by decide
  have hfirst : sec.stable.bind List.head? = some b ↔ b = stable := by
    rw [hstable, Option.some.injEq]
    exact eq_comm
  simp only [ReportsStable, statusBits, Option.map_eq_some_iff, hfirst]
  constructor
  · rintro ⟨status, ⟨istatus, hmatch, rfl⟩, hbit⟩
    refine ⟨istatus, hmatch, ?_⟩
    rw [← hbit]
    by_cases hzero : istatus = 0
    · simp [hzero, Estatus.val, hset]
    · simp [hzero, Estatus.val, hclear]
  · rintro ⟨istatus, hmatch, hzero⟩
    refine ⟨_, ⟨istatus, hmatch, rfl⟩, ?_⟩
    rw [← hzero]
    by_cases hzero : istatus = 0
    · simp [hzero, Estatus.val, hset]
    · simp [hzero, Estatus.val, hclear]

/-- **The stable bit.**  With texts whose first characters differ, a status byte is reported
as it should exactly when `Length` is not above the number of the slots and the byte is found
in one of those that are compared; any other byte counts as stable. -/
theorem reportsStable_iff
    {sec : StatusSection}
    {stable unstable overLoad underLoad : UInt8}
    (h : sec.FirstChars stable unstable overLoad underLoad)
    (b : UInt8) :
    ReportsStable sec b ↔
      sec.length ≤ 4 ∧ Recognised sec.length stable unstable underLoad b := by
  obtain ⟨rest, hstable⟩ := h.stable_eq
  have hfirst : sec.stable.bind List.head? = some stable := by
    rw [hstable]
    rfl
  obtain ⟨h₁, h₂, h₃, h₄⟩ := h.matchStatus_eq b
  have hdistinct := h.distinct
  have hzero := h.no_zero
  have hpos := h.length_pos
  have hload : sec.load.length = 4 := by
    have := congrArg List.length h.load_heads
    simpa using this
  simp only [List.nodup_cons, List.mem_cons, List.not_mem_nil, or_false, not_or, not_false_eq_true,
    List.nodup_nil, and_true] at hdistinct hzero
  obtain ⟨⟨d₁, -, d₃⟩, ⟨-, -⟩, -⟩ := hdistinct
  obtain ⟨z₀, z₁, -, z₃⟩ := hzero
  rw [reportsStable_iff_matchStatus hfirst, Recognised]
  rcases (by omega : sec.length = 1 ∨ sec.length = 2 ∨ sec.length = 3 ∨ sec.length = 4 ∨
    4 < sec.length) with hlen | hlen | hlen | hlen | hlen
  · simp [hlen, h₁]
  · simp only [hlen, h₂, Option.some.injEq, exists_eq_left']
    by_cases hb : unstable = b
    · subst hb
      simp [Ne.symm d₁]
    · simp [hb, Ne.symm hb]
  · simp only [hlen, h₃, Option.some.injEq, exists_eq_left']
    by_cases hb : underLoad = b
    · subst hb
      simp [Ne.symm d₃]
    · by_cases hb' : unstable = b
      · subst hb'
        simp [hb, Ne.symm d₁]
      · simp [hb, hb', Ne.symm hb, Ne.symm hb']
  · simp only [hlen, h₄, Option.some.injEq, exists_eq_left']
    by_cases hb₀ : 0 = b
    · subst hb₀
      simp [z₀]
    · by_cases hb : underLoad = b
      · subst hb
        simp [hb₀, Ne.symm d₃]
      · by_cases hb' : unstable = b
        · subst hb'
          simp [hb₀, hb, Ne.symm d₁]
        · simp [hb₀, hb, hb', Ne.symm hb, Ne.symm hb', Ne.symm hb₀]
  · rw [matchStatus_eq_none (by omega)]
    simp only [reduceCtorEq, false_and, exists_false, false_iff, not_and]
    omega

/-- The texts ST, US, OL and LU, with the length of their first two characters. -/
def statusSection : StatusSection where
  position := 0
  length := 2
  stable := some [0x53, 0x54]
  unstable := some [0x55, 0x53]
  overLoad := some [0x4f, 0x4c]
  underLoad := some [0x4c, 0x55]

theorem reportsStable_unstable :
    ReportsStable statusSection 0x55 ↔
      statusSection.length ≤ 4 ∧ Recognised statusSection.length 0x53 0x55 0x4c 0x55 :=
  reportsStable_iff ⟨⟨_, rfl⟩, ⟨_, rfl⟩, ⟨_, rfl⟩, ⟨_, rfl⟩, by decide, by decide, by decide⟩ 0x55

/-- An overloaded scale is reported as stable. -/
theorem overload_reported_stable :
    ¬ ReportsStable statusSection 0x4f := by
  rintro ⟨status, hbits, hstable⟩
  have hset : statusBits statusSection.load statusSection.length 0x4f = some 1 := by decide
  rw [hset, Option.some.injEq] at hbits
  subst hbits
  exact absurd (hstable.mp (by decide)) (by decide)

end Scaled
end MatrixBin
