import MatrixBin.Library.FloatMean
import MatrixBin.Library.TransitionRuns
import MatrixBin.Metrology.VpiHandlers

/-!
# The averages of a channel

In service mode `processingCurMeasurement` averages the readings of a raw-data channel: after
`setAveragTime` both averages are 0, and each measurement replaces an average by half its sum
with the reading.  The 0 counts like a reading that was never made, so the averages lie between
the readings only if they are 0 themselves, or if no averaging takes place.

The sum of two raw values is an `int`; a measurement whose sum is none has no result.  The
weights are floats: a ratio that is infinite or no number, which a section between two points
of one raw value has, can make the averaged weight no number.
-/

namespace MatrixBin
namespace Metrology

open Library

/-! ### Measurements -/

/-- The addition `averag_raw_value += raw_value` is made and its result is no `int`. -/
def SumOverflows (conf : SystemConfiguration) (cur : CurMeasurement) : Bool :=
  match channelOf conf cur.channel with
  | some ch =>
      conf.ready && conf.serviceMode && ch.rawData && decide (2 ≤ ch.linearSections.length) &&
        decide (ch.averagValue.averagTime ≠ 0) &&
        !decide (FitsInt (ch.averagValue.averagRawValue + cur.rawValue.toInt))
  | none => false

/-- The configuration, and the raw and weight values measured on a channel so far. -/
structure Averaging where
  conf : SystemConfiguration
  samples : List (Int × FloatValue)
deriving DecidableEq

def Averaging.raws (a : Averaging) : List Int := a.samples.map Prod.fst

def Averaging.weights (a : Averaging) : List FloatValue := a.samples.map Prod.snd

/-- A measurement on any channel, with the clock reading. -/
def measure (id : Int) (m : Int × CurMeasurement) (a : Averaging) : Option Averaging :=
  if SumOverflows a.conf m.2 then none
  else
    let r := processingCurMeasurement ⟨m.2, none⟩ m.1 a.conf
    some
      { conf := r.conf
        samples :=
          if m.2.channel = id ∧ r.code = matrixlibOk then
            a.samples ++ [(m.2.rawValue.toInt, r.cur.weightValue)]
          else a.samples }

/-- One call of a run; after an overflow there is no state. -/
def measureStep (id : Int) (s : Option Averaging) (m : Int × CurMeasurement) :
    Option (Option Averaging) :=
  some (s.bind (measure id m))

/-- The averages of the channel lie between what was measured; no value is between anything
and a NaN. -/
def AveragesInRange (id : Int) : Option Averaging → Prop
  | some a =>
      a.samples ≠ [] → ∀ ch, channelOf a.conf id = some ch →
        BetweenSamples ch.averagValue.averagRawValue a.raws ∧
          ch.averagValue.averagWeightValue ≠ .nan ∧
          BetweenSamples ch.averagValue.averagWeightValue a.weights
  | none => False

/-- The reading has a weight on a raw-data channel: the ratio of its section is a number, and
finite if the reading is 0. -/
def Channel.Weighs (ch : Channel) (rawValue : Int32) : Prop :=
  ratioFor ch.linearSections rawValue ≠ .nan ∧
    (rawValue = 0 → ∀ negative, ratioFor ch.linearSections rawValue ≠ .infinite negative)

/-- The product that is the weight of a reading. -/
def Channel.weightAt (ch : Channel) (rawValue : Int32) : FloatValue :=
  .mul (.ofInt rawValue.toInt) (ratioFor ch.linearSections rawValue)

/-- A reading of a raw-data channel behind some samples that keeps its averages in range: where
readings are averaged, the first is 0, and the sum with a later weight stays a number of the
range of a float. -/
structure Channel.Takes
    (ch : Channel) (samples : List (Int × FloatValue)) (rawValue : Int32) : Prop where
  first : samples = [] → ch.averagValue.averagTime = 0 ∨ rawValue = 0
  weighs : ch.Weighs rawValue
  sum :
    samples ≠ [] → ch.averagValue.averagTime ≠ 0 →
      FloatFormat.binary32.SumHolds ch.averagValue.averagWeightValue (ch.weightAt rawValue)

/-- No sum of raw values overflows, and what is measured on the channel is taken, or is 0 at
first on a channel that averages nothing. -/
def KeepsRange (id : Int) : Option Averaging → Int × CurMeasurement → Prop
  | some a, m =>
      SumOverflows a.conf m.2 = false ∧
        (m.2.channel = id → ∀ ch, channelOf a.conf id = some ch →
          if ch.rawData then 2 ≤ ch.linearSections.length → ch.Takes a.samples m.2.rawValue
          else a.samples = [] → m.2.rawValue = 0 ∧ m.2.rawWeightValue = 0)
  | none, _ => False

/-! ### What a measurement does -/

section OneMeasurement

variable {conf : SystemConfiguration} {cur : CurMeasurement} {ch : Channel}

/-- A measurement of another channel. -/
theorem channelOf_processingCurMeasurement_of_ne
    {id : Int}
    (hne : cur.channel ≠ id)
    (now : Int) :
    channelOf (processingCurMeasurement ⟨cur, none⟩ now conf).conf id = channelOf conf id := by
  unfold processingCurMeasurement
  simp only
  split
  · rfl
  · split
    · rfl
    · rename_i idx hidx
      split
      · rfl
      · rename_i ch hget
        have hch : channelOf conf cur.channel = some ch := by simp [channelOf, hidx, hget]
        have hchannel (weight : FloatValue) :
            (averageValue now cur.rawValue weight ch).channel = ch.channel := by
          unfold averageValue
          simp only
          split <;> rfl
        split
        · split
          · rfl
          · simp only
            split
            · rw [channelOf_setChannel hidx hch (hchannel _), if_neg (Ne.symm hne)]
            · rfl
        · rfl

section Addressed

variable (hready : conf.ready) (hservice : conf.serviceMode)
variable (hch : channelOf conf cur.channel = some ch)

include hready hch in
/-- A raw-data channel without a table. -/
theorem processingCurMeasurement_unmeasurable
    (hraw : ch.rawData)
    (hlen : ¬ 2 ≤ ch.linearSections.length)
    (now : Int) :
    (processingCurMeasurement ⟨cur, none⟩ now conf).conf = conf ∧
      (processingCurMeasurement ⟨cur, none⟩ now conf).code ≠ matrixlibOk := by
  obtain ⟨idx, hidx, hget⟩ := Option.bind_eq_some_iff.mp hch
  have hcodes : matrixlibLinearitazionError ≠ matrixlibOk := by decide
  simp [processingCurMeasurement, hready, hidx, hget, hraw, not_le.mp hlen, hcodes]

include hready hch in
/-- A channel that is not in raw-data mode. -/
theorem processingCurMeasurement_weighed
    (hraw : ¬ ch.rawData)
    (now : Int) :
    processingCurMeasurement ⟨cur, none⟩ now conf =
      ⟨{ cur with weightValue := .ofInt cur.rawWeightValue }, conf, matrixlibOk⟩ := by
  obtain ⟨idx, hidx, hget⟩ := Option.bind_eq_some_iff.mp hch
  simp [processingCurMeasurement, hready, hidx, hget, hraw]

include hready hservice hch in
/-- A raw-data channel with a table: the measurement is averaged. -/
theorem processingCurMeasurement_averaged
    (hraw : ch.rawData)
    (hlen : 2 ≤ ch.linearSections.length)
    (now : Int) :
    (processingCurMeasurement ⟨cur, none⟩ now conf).code = matrixlibOk ∧
      channelOf (processingCurMeasurement ⟨cur, none⟩ now conf).conf cur.channel =
        some
          (averageValue now cur.rawValue
            (processingCurMeasurement ⟨cur, none⟩ now conf).cur.weightValue ch) := by
  obtain ⟨idx, hidx, hget⟩ := Option.bind_eq_some_iff.mp hch
  have hchannel (weight : FloatValue) :
      (averageValue now cur.rawValue weight ch).channel = ch.channel := by
    unfold averageValue
    simp only
    split <;> rfl
  simp [processingCurMeasurement, hready, hservice, hidx, hget, hraw, not_lt.mpr hlen,
    channelOf_setChannel hidx hch (hchannel _)]

end Addressed

end OneMeasurement

theorem ofInt_finite (rawValue : Int32) : ∃ r, FloatValue.ofInt rawValue.toInt = .finite r := by
  have hlow := rawValue.le_toInt
  have hhigh := rawValue.toInt_lt
  exact ⟨_, FloatFormat.round_intCast (F := .binary32) (k := 31) hlow hhigh.le (by decide)⟩

/-- A reading has a weight exactly if its product with the ratio is a number. -/
theorem weightAt_ne_nan_iff
    (ch : Channel)
    (rawValue : Int32) :
    ch.weightAt rawValue ≠ .nan ↔ ch.Weighs rawValue := by
  obtain ⟨r, hr⟩ : ∃ r, FloatValue.ofInt rawValue.toInt = .finite r := ofInt_finite rawValue
  have hzero : r = 0 ↔ rawValue = 0 := by
    have hiff := FloatFormat.ofInt_eq_zero_iff (F := .binary32) rawValue.toInt
    have hofInt : FloatValue.ofInt rawValue.toInt = .finite 0 ↔ rawValue.toInt = 0 := hiff
    rw [hr, FloatValue.finite.injEq] at hofInt
    rw [hofInt]
    exact ⟨fun h => Int32.toInt_inj.mp h, fun h => by rw [h]; rfl⟩
  unfold Channel.weightAt Channel.Weighs
  rw [hr]
  cases ratioFor ch.linearSections rawValue with
  | nan => simp [FloatValue.mul]
  | infinite negative =>
      by_cases h : rawValue = 0
      · simp [FloatValue.mul, hzero.mpr h, h]
      · have hne : r ≠ 0 := fun hr => h (hzero.mp hr)
        simp [FloatValue.mul, hne, h]
  | finite k =>
      refine iff_of_true ?_ ⟨by simp, fun _ _ => by simp⟩
      exact FloatFormat.round_ne_nan (r * k)

theorem holds_weightAt
    (ch : Channel)
    (rawValue : Int32) :
    FloatFormat.binary32.Holds (ch.weightAt rawValue) :=
  FloatFormat.holds_mul _ _

/-- The reading 0 weighs 0. -/
theorem Channel.Weighs.weightAt_zero
    {ch : Channel}
    (h : ch.Weighs 0) :
    ch.weightAt 0 = .finite 0 := by
  have hzero : FloatValue.ofInt (0 : Int32).toInt = .finite 0 :=
    (FloatFormat.ofInt_eq_zero_iff (F := .binary32) 0).mpr rfl
  unfold Channel.weightAt
  rw [hzero]
  cases hratio : ratioFor ch.linearSections 0 with
  | nan => exact absurd hratio h.1
  | infinite negative => exact absurd hratio (h.2 rfl negative)
  | finite k =>
      have hround : FloatFormat.binary32.round (0 * k) = .finite 0 := by
        rw [zero_mul, FloatFormat.round_zero]
      exact hround

/-! ### Averages and samples -/

/-- The averages lie between the samples. -/
def Channel.InRange (ch : Channel) (samples : List (Int × FloatValue)) : Prop :=
  BetweenSamples ch.averagValue.averagRawValue (samples.map Prod.fst) ∧
    ch.averagValue.averagWeightValue ≠ .nan ∧
    BetweenSamples ch.averagValue.averagWeightValue (samples.map Prod.snd)

/-- The averages of a channel that averages: between the samples, as 0 is. -/
structure MeansOf (ch : Channel) (samples : List (Int × FloatValue)) : Prop where
  raws : BetweenSamples ch.averagValue.averagRawValue (samples.map Prod.fst)
  zero : BetweenSamples 0 (samples.map Prod.fst)
  weights : MeanOf .binary32 ch.averagValue.averagWeightValue (samples.map Prod.snd)

/-- The averages are 0 before the first sample and between the samples afterwards; unless
nothing is averaged, they are means. -/
structure AveragesOf (ch : Channel) (samples : List (Int × FloatValue)) : Prop where
  fresh :
    samples = [] → ch.averagValue.averagRawValue = 0 ∧ ch.averagValue.averagWeightValue = 0
  range : samples ≠ [] → ch.InRange samples
  means : samples ≠ [] → ch.rawData → ch.averagValue.averagTime ≠ 0 → MeansOf ch samples

section Samples

variable {ch : Channel} {samples : List (Int × FloatValue)} {raw : Int32} {weight : FloatValue}

theorem between_append
    {α β : Type}
    [PartialOrder α]
    {f : β → α}
    {x : α}
    {samples : List β}
    (h : BetweenSamples x (samples.map f))
    (later : List β) :
    BetweenSamples x ((samples ++ later).map f) :=
  h.mono (List.map_subset f (List.subset_append_left samples later))

theorem between_append_last
    {α β : Type}
    [PartialOrder α]
    (f : β → α)
    (samples : List β)
    (b : β) :
    BetweenSamples (f b) ((samples ++ [b]).map f) :=
  BetweenSamples.of_mem (List.mem_map_of_mem (by simp))

/-- Without averaging a sample is both averages. -/
theorem averageValue_taken
    (htime : ch.averagValue.averagTime = 0)
    (now : Int) :
    (averageValue now raw weight ch).averagValue =
      { ch.averagValue with averagWeightValue := weight, averagRawValue := raw.toInt } := by
  simp [averageValue, htime]

/-- Averaging takes half the sums. -/
theorem averageValue_averaged
    (htime : ch.averagValue.averagTime ≠ 0)
    (now : Int) :
    (averageValue now raw weight ch).averagValue =
      { ch.averagValue with
        averagWeightValue :=
          FloatFormat.binary32.halfSum ch.averagValue.averagWeightValue weight
        averagRawValue := (ch.averagValue.averagRawValue + raw.toInt).tdiv 2 } := by
  simp only [averageValue, htime, if_false]
  rfl

/-- Without averaging only the last sample counts. -/
theorem AveragesOf.taken_iff
    (htime : ch.averagValue.averagTime = 0)
    (now : Int) :
    ((averageValue now raw weight ch).InRange (samples ++ [(raw.toInt, weight)]) ↔
        weight ≠ .nan) ∧
      (weight ≠ .nan →
        AveragesOf (averageValue now raw weight ch) (samples ++ [(raw.toInt, weight)])) := by
  have heq := @averageValue_taken ch raw weight htime now
  have hrange : (averageValue now raw weight ch).InRange (samples ++ [(raw.toInt, weight)]) ↔
      weight ≠ .nan := by
    rw [Channel.InRange, heq]
    constructor
    · exact fun h => h.2.1
    · intro hnumber
      exact ⟨between_append_last Prod.fst samples (raw.toInt, weight), hnumber,
        between_append_last Prod.snd samples (raw.toInt, weight)⟩
  refine ⟨hrange, fun hnumber => ⟨fun h => absurd h (by simp), fun _ => hrange.mpr hnumber, ?_⟩⟩
  intro _ _ hne
  rw [heq] at hne
  exact absurd htime hne

/-- The first sample of a channel that averages. -/
theorem AveragesOf.first_iff
    (h : AveragesOf ch [])
    (htime : ch.averagValue.averagTime ≠ 0)
    (hholds : FloatFormat.binary32.Holds weight)
    (hzero : raw = 0 → weight ≠ .nan → weight = .finite 0)
    (now : Int) :
    ((averageValue now raw weight ch).InRange ([] ++ [(raw.toInt, weight)]) ↔
        raw = 0 ∧ weight ≠ .nan) ∧
      (raw = 0 ∧ weight ≠ .nan →
        AveragesOf (averageValue now raw weight ch) ([] ++ [(raw.toInt, weight)])) := by
  obtain ⟨hraw, hweight⟩ := h.fresh rfl
  have heq := @averageValue_averaged ch raw weight htime now
  rw [hraw, hweight, Int.zero_add, FloatValue.zero_eq] at heq
  have hmeans (hr : raw = 0 ∧ weight ≠ .nan) :
      MeansOf (averageValue now raw weight ch) ([] ++ [(raw.toInt, weight)]) := by
    obtain ⟨rfl, hnumber⟩ := hr
    have hw := hzero rfl hnumber
    subst hw
    have hhalf : FloatFormat.binary32.halfSum (.finite 0) (.finite 0) = .finite 0 := by
      decide +kernel
    rw [hhalf] at heq
    constructor
    · rw [heq]
      exact .of_mem (List.mem_singleton.mpr rfl)
    · exact .of_mem (List.mem_singleton.mpr rfl)
    · rw [heq]
      exact ⟨by simpa using hholds, by simp, .of_mem (by simp), by simp⟩
  have hrange : (averageValue now raw weight ch).InRange ([] ++ [(raw.toInt, weight)]) ↔
      raw = 0 ∧ weight ≠ .nan := by
    constructor
    · rintro ⟨hraws, hnumber, hweights⟩
      rw [heq] at hraws hnumber hweights
      have hr : raw.toInt = 0 :=
        (BetweenSamples.tdiv_two_eq_self_iff _).mp (BetweenSamples.singleton_iff.mp hraws)
      refine ⟨Int32.toInt_inj.mp hr, ?_⟩
      rintro rfl
      exact hnumber (BetweenSamples.singleton_iff.mp hweights)
    · intro hr
      have hnext := hmeans hr
      exact ⟨hnext.raws, hnext.weights.number, hnext.weights.between⟩
  exact ⟨hrange, fun hr => ⟨fun hnil => absurd hnil (by simp), fun _ => hrange.mpr hr,
    fun _ _ _ => hmeans hr⟩⟩

/-- A later sample of a channel that averages. -/
theorem MeansOf.next_iff
    (h : MeansOf ch samples)
    (htime : ch.averagValue.averagTime ≠ 0)
    (hholds : FloatFormat.binary32.Holds weight)
    (now : Int) :
    ((averageValue now raw weight ch).InRange (samples ++ [(raw.toInt, weight)]) ↔
        FloatFormat.binary32.SumHolds ch.averagValue.averagWeightValue weight) ∧
      (FloatFormat.binary32.SumHolds ch.averagValue.averagWeightValue weight →
        AveragesOf (averageValue now raw weight ch) (samples ++ [(raw.toInt, weight)])) := by
  have heq := @averageValue_averaged ch raw weight htime now
  have hzero := between_append h.zero [(raw.toInt, weight)]
  have hraws : BetweenSamples (averageValue now raw weight ch).averagValue.averagRawValue
      ((samples ++ [(raw.toInt, weight)]).map Prod.fst) := by
    rw [heq]
    exact (between_append h.raws _).half_sum
      (between_append_last Prod.fst samples (raw.toInt, weight)) hzero
  have hweights : (samples ++ [(raw.toInt, weight)]).map Prod.snd =
      samples.map Prod.snd ++ [weight] := by simp
  have hrange : (averageValue now raw weight ch).InRange (samples ++ [(raw.toInt, weight)]) ↔
      FloatFormat.binary32.SumHolds ch.averagValue.averagWeightValue weight := by
    rw [Channel.InRange, hweights, heq, ← h.weights.next_iff hholds]
    rw [heq] at hraws
    exact and_iff_right hraws
  refine ⟨hrange, fun hsum => ⟨fun hnil => absurd hnil (by simp), fun _ => hrange.mpr hsum, ?_⟩⟩
  intro _ _ _
  refine ⟨hraws, hzero, ?_⟩
  rw [hweights, heq]
  exact h.weights.next hholds hsum

/-- The exact effect of a measurement of a raw-data channel on its averages. -/
theorem AveragesOf.averageValue_iff
    (h : AveragesOf ch samples)
    (hraw : ch.rawData)
    (now : Int) :
    ((averageValue now raw (ch.weightAt raw) ch).InRange
          (samples ++ [(raw.toInt, ch.weightAt raw)]) ↔
        ch.Takes samples raw) ∧
      (ch.Takes samples raw →
        AveragesOf (averageValue now raw (ch.weightAt raw) ch)
          (samples ++ [(raw.toInt, ch.weightAt raw)])) := by
  have hholds := holds_weightAt ch raw
  have hnumber := weightAt_ne_nan_iff ch raw
  by_cases htime : ch.averagValue.averagTime = 0
  · have htakes : ch.Takes samples raw ↔ ch.weightAt raw ≠ .nan := by
      rw [hnumber]
      exact ⟨fun h => h.weighs, fun h => ⟨fun _ => Or.inl htime, h, fun _ hne => absurd htime hne⟩⟩
    rw [htakes]
    exact AveragesOf.taken_iff htime now
  · by_cases hfirst : samples = []
    · subst hfirst
      have htakes : ch.Takes [] raw ↔ raw = 0 ∧ ch.weightAt raw ≠ .nan := by
        rw [hnumber]
        exact ⟨fun h => ⟨(h.first rfl).resolve_left htime, h.weighs⟩,
          fun h => ⟨fun _ => Or.inr h.1, h.2, fun hne => absurd rfl hne⟩⟩
      rw [htakes]
      refine AveragesOf.first_iff h htime hholds ?_ now
      rintro rfl hne
      exact ((weightAt_ne_nan_iff ch 0).mp hne).weightAt_zero
    · have htakes : ch.Takes samples raw ↔
          FloatFormat.binary32.SumHolds ch.averagValue.averagWeightValue (ch.weightAt raw) :=
        ⟨fun h => h.sum hfirst htime,
          fun hsum => ⟨fun hnil => absurd hnil hfirst, hnumber.mp hsum.sample_ne_nan,
            fun _ _ => hsum⟩⟩
      rw [htakes]
      exact (h.means hfirst hraw htime).next_iff htime hholds now

/-- A sample of a channel that averages nothing. -/
theorem AveragesOf.weighed_iff
    (h : AveragesOf ch samples)
    (hraw : ¬ ch.rawData)
    (raw : Int32)
    (weight : Int) :
    (ch.InRange (samples ++ [(raw.toInt, .ofInt weight)]) ↔
        (samples = [] → raw = 0 ∧ weight = 0)) ∧
      ((samples = [] → raw = 0 ∧ weight = 0) →
        AveragesOf ch (samples ++ [(raw.toInt, .ofInt weight)])) := by
  have hnext (hrange : ch.InRange (samples ++ [(raw.toInt, .ofInt weight)])) :
      AveragesOf ch (samples ++ [(raw.toInt, .ofInt weight)]) :=
    ⟨fun hnil => absurd hnil (by simp), fun _ => hrange, fun _ h => absurd h hraw⟩
  by_cases hfirst : samples = []
  · subst hfirst
    obtain ⟨hzero, hzero'⟩ := h.fresh rfl
    have hweight : FloatValue.ofInt weight = .finite 0 ↔ weight = 0 :=
      FloatFormat.ofInt_eq_zero_iff (F := .binary32) weight
    have heq : ch.InRange ([] ++ [(raw.toInt, .ofInt weight)]) ↔ raw = 0 ∧ weight = 0 := by
      simp only [Channel.InRange, hzero, hzero', List.nil_append, List.map_cons, List.map_nil,
        BetweenSamples.singleton_iff, FloatValue.zero_eq, ne_eq, reduceCtorEq, not_false_eq_true,
        true_and]
      refine and_congr ?_ (eq_comm.trans hweight)
      exact eq_comm.trans ⟨fun hr => Int32.toInt_inj.mp hr, fun hr => by rw [hr]; rfl⟩
    have hcondition : ([] = ([] : List (Int × FloatValue)) → raw = 0 ∧ weight = 0) ↔
        raw = 0 ∧ weight = 0 := by simp
    rw [hcondition]
    exact ⟨heq, fun hr => hnext (heq.mpr hr)⟩
  · obtain ⟨hraws, hnumber, hweights⟩ := h.range hfirst
    have hrange : ch.InRange (samples ++ [(raw.toInt, .ofInt weight)]) :=
      ⟨between_append hraws _, hnumber, between_append hweights _⟩
    exact ⟨iff_of_true hrange fun hnil => absurd hnil hfirst, fun _ => hnext hrange⟩

end Samples

/-! ### Runs -/

section Runs

variable {id : Int}

/-- The channel and its averages in service mode. -/
structure Tracked (id : Int) (a : Averaging) (ch : Channel) : Prop where
  ready : a.conf.ready
  serviceMode : a.conf.serviceMode
  channel : channelOf a.conf id = some ch
  averages : AveragesOf ch a.samples

theorem averagesInRange_iff
    {a : Averaging}
    {ch : Channel}
    (hch : channelOf a.conf id = some ch) :
    AveragesInRange id (some a) ↔ (a.samples ≠ [] → ch.InRange a.samples) := by
  constructor
  · intro h hne
    exact h hne ch hch
  · intro h hne other hother
    rw [← Option.some.inj (hch.symm.trans hother)]
    exact h hne

section OneRun

variable {a : Averaging} {ch : Channel} {cur : CurMeasurement}

/-- What a measurement without an overflow leaves. -/
theorem measure_of_fits
    (hfits : SumOverflows a.conf cur = false)
    (now : Int) :
    measure id (now, cur) a =
      some
        ⟨(processingCurMeasurement ⟨cur, none⟩ now a.conf).conf,
          if cur.channel = id ∧
              (processingCurMeasurement ⟨cur, none⟩ now a.conf).code = matrixlibOk then
            a.samples ++
              [(cur.rawValue.toInt,
                (processingCurMeasurement ⟨cur, none⟩ now a.conf).cur.weightValue)]
          else a.samples⟩ :=
  if_neg (by rw [hfits]; decide)

theorem keepsRange_iff
    (hch : channelOf a.conf id = some ch)
    (hfits : SumOverflows a.conf cur = false)
    (now : Int) :
    KeepsRange id (some a) (now, cur) ↔
      (cur.channel = id →
        if ch.rawData then 2 ≤ ch.linearSections.length → ch.Takes a.samples cur.rawValue
        else a.samples = [] → cur.rawValue = 0 ∧ cur.rawWeightValue = 0) := by
  constructor
  · intro hkeeps hid
    exact hkeeps.2 hid ch hch
  · intro hkeeps
    refine ⟨hfits, fun hid other hother => ?_⟩
    rw [← Option.some.inj (hch.symm.trans hother)]
    exact hkeeps hid

/-- It is enough to follow the channel and its samples. -/
theorem Tracked.measured
    {now : Int}
    {ch' : Channel}
    {samples : List (Int × FloatValue)}
    {P : Prop}
    (h : Tracked id a ch)
    (hmeasure : measure id (now, cur) a =
      some ⟨(processingCurMeasurement ⟨cur, none⟩ now a.conf).conf, samples⟩)
    (hch' : channelOf (processingCurMeasurement ⟨cur, none⟩ now a.conf).conf id = some ch')
    (hexact : (samples ≠ [] → ch'.InRange samples) ↔ P)
    (hnext : P → AveragesOf ch' samples) :
    (AveragesInRange id (measure id (now, cur) a) ↔ P) ∧
      (P → ∃ a' ch', measure id (now, cur) a = some a' ∧ Tracked id a' ch') := by
  have hflags := processingCurMeasurement_flagSystem cur now a.conf
  rw [hmeasure, averagesInRange_iff hch']
  refine ⟨hexact, fun hkeeps => ⟨_, ch', rfl, ?_, ?_, hch', hnext hkeeps⟩⟩
  · rw [SystemConfiguration.ready, hflags]
    exact h.ready
  · rw [SystemConfiguration.serviceMode, hflags]
    exact h.serviceMode

end OneRun

/-- The exact effect of a measurement. -/
theorem measure_inRange_iff
    {a : Averaging}
    {ch : Channel}
    (h : Tracked id a ch)
    (m : Int × CurMeasurement) :
    (AveragesInRange id (measure id m a) ↔ KeepsRange id (some a) m) ∧
      (KeepsRange id (some a) m → ∃ a' ch', measure id m a = some a' ∧ Tracked id a' ch') := by
  obtain ⟨now, cur⟩ := m
  by_cases hsum : SumOverflows a.conf cur = true
  · have hnone : measure id (now, cur) a = none := if_pos hsum
    have hfalse : ¬ KeepsRange id (some a) (now, cur) := fun hkeeps =>
      absurd (hkeeps.1.symm.trans hsum) (by decide)
    rw [hnone]
    exact ⟨iff_of_false not_false hfalse, fun hkeeps => absurd hkeeps hfalse⟩
  have hfits : SumOverflows a.conf cur = false := by simpa using hsum
  have hcondition := keepsRange_iff h.channel hfits now
  have hmeasure := @measure_of_fits id a cur hfits now
  by_cases hid : cur.channel = id
  · subst hid
    by_cases hraw : ch.rawData
    · by_cases hlen : 2 ≤ ch.linearSections.length
      · -- a measurement that is averaged
        obtain ⟨hcode, hafter⟩ := processingCurMeasurement_averaged h.ready h.serviceMode
          h.channel hraw hlen now
        have hweight : (processingCurMeasurement ⟨cur, none⟩ now a.conf).cur.weightValue =
            ch.weightAt cur.rawValue :=
          (processingCurMeasurement_weight now h.ready h.channel hraw hlen).2
        rw [if_pos ⟨rfl, hcode⟩, hweight] at hmeasure
        rw [hweight] at hafter
        obtain ⟨hiff, hnext⟩ := @AveragesOf.averageValue_iff _ _ cur.rawValue h.averages hraw now
        have htakes : KeepsRange cur.channel (some a) (now, cur) ↔
            ch.Takes a.samples cur.rawValue := by
          rw [hcondition, if_pos hraw]
          exact ⟨fun hkeeps => hkeeps rfl hlen, fun hkeeps _ _ => hkeeps⟩
        refine h.measured hmeasure hafter ?_ fun hkeeps => hnext (htakes.mp hkeeps)
        rw [htakes, ← hiff]
        simp
      · -- a channel without a table
        obtain ⟨hconf, hcode⟩ :=
          processingCurMeasurement_unmeasurable h.ready h.channel hraw hlen now
        rw [if_neg fun hok => hcode hok.2] at hmeasure
        have htrue : KeepsRange cur.channel (some a) (now, cur) := by
          rw [hcondition, if_pos hraw]
          exact fun _ hmeasurable => absurd hmeasurable hlen
        refine h.measured hmeasure (by rw [hconf]; exact h.channel) ?_ fun _ => h.averages
        exact iff_of_true h.averages.range htrue
    · -- a channel that is weighed by its device
      have heq := processingCurMeasurement_weighed h.ready h.channel hraw now
      have hcode : (processingCurMeasurement ⟨cur, none⟩ now a.conf).code = matrixlibOk := by
        rw [heq]
      have hweight : (processingCurMeasurement ⟨cur, none⟩ now a.conf).cur.weightValue =
          .ofInt cur.rawWeightValue := by rw [heq]
      rw [if_pos ⟨rfl, hcode⟩, hweight] at hmeasure
      obtain ⟨hiff, hnext⟩ := h.averages.weighed_iff hraw cur.rawValue cur.rawWeightValue
      have htakes : KeepsRange cur.channel (some a) (now, cur) ↔
          (a.samples = [] → cur.rawValue = 0 ∧ cur.rawWeightValue = 0) := by
        rw [hcondition, if_neg hraw]
        exact ⟨fun hkeeps => hkeeps rfl, fun hkeeps _ => hkeeps⟩
      refine h.measured hmeasure (by rw [heq]; exact h.channel) ?_
        fun hkeeps => hnext (htakes.mp hkeeps)
      rw [htakes, ← hiff]
      simp
  · -- a measurement of another channel
    rw [if_neg fun hok => hid hok.1] at hmeasure
    refine h.measured hmeasure ((channelOf_processingCurMeasurement_of_ne hid now).trans h.channel)
      ?_ fun _ => h.averages
    exact iff_of_true h.averages.range (hcondition.mpr fun heq => absurd heq hid)

/-- `setAveragTime` sets the averages of its channel to 0. -/
theorem tracked_of_setAveragTime
    {conf : SystemConfiguration}
    {ch : Channel}
    (hready : conf.ready)
    (hservice : conf.serviceMode)
    (hch : channelOf conf id = some ch)
    (now averagTime : Int) :
    ∃ ch', Tracked id ⟨(setAveragTime now ⟨⟨id, averagTime⟩, none⟩ conf).1, []⟩ ch' := by
  have hafter : channelOf (setAveragTime now ⟨⟨id, averagTime⟩, none⟩ conf).1 id =
      some (averagTimeChannel now ⟨id, averagTime⟩ ch).1 := by
    rw [setAveragTime, channelOf_calibrationHandler (fun _ _ => rfl),
      if_pos ⟨hready, hservice, rfl⟩, hch, Option.map_some]
  have hflags : (setAveragTime now ⟨⟨id, averagTime⟩, none⟩ conf).1.flagSystem =
      conf.flagSystem := calibrationHandler_flagSystem _ conf
  refine ⟨_, ?_, ?_, hafter, fun _ => ⟨rfl, rfl⟩, fun hne => absurd rfl hne,
    fun hne _ _ => absurd rfl hne⟩
  · rw [SystemConfiguration.ready, hflags]
    exact hready
  · rw [SystemConfiguration.serviceMode, hflags]
    exact hservice

/-- **The averages of a channel.**  In a run of measurements behind `setAveragTime` the averages
lie between the measured values in every state exactly if no sum overflows, the averages take
over the first measurement of the channel and every reading of it has a weight; where they lie
so, a constant load averages to itself. -/
theorem averages_in_range_iff
    {conf : SystemConfiguration}
    {ch : Channel}
    (hready : conf.ready)
    (hservice : conf.serviceMode)
    (hch : channelOf conf id = some ch)
    (now averagTime : Int)
    (measurements : List (Int × CurMeasurement)) :
    (HoldsAlong (measureStep id) (AveragesInRange id)
          (some ⟨(setAveragTime now ⟨⟨id, averagTime⟩, none⟩ conf).1, []⟩) measurements ↔
        MeetsAlong (measureStep id) (KeepsRange id)
          (some ⟨(setAveragTime now ⟨⟨id, averagTime⟩, none⟩ conf).1, []⟩) measurements) ∧
      ∀ (a : Averaging) (ch : Channel) (raw : Int) (weight : FloatValue),
        AveragesInRange id (some a) → channelOf a.conf id = some ch →
        a.samples ≠ [] → (∀ s ∈ a.samples, s = (raw, weight)) →
          ch.averagValue.averagRawValue = raw ∧ ch.averagValue.averagWeightValue = weight := by
  constructor
  · let Inv (s : Option Averaging) : Prop := ∃ a ch, s = some a ∧ Tracked id a ch
    obtain ⟨ch', hstart⟩ := tracked_of_setAveragTime hready hservice hch now averagTime
    have hholds : ∀ s, Inv s → AveragesInRange id s := by
      rintro s ⟨a, ch, rfl, h⟩
      exact (averagesInRange_iff h.channel).mpr h.averages.range
    refine holdsAlong_iff_meetsAlong hholds ?_ ?_ ⟨_, ch', rfl, hstart⟩ measurements
    · rintro s m s' ⟨a, ch, rfl, h⟩ hstep
      rw [← Option.some.inj hstep]
      exact (measure_inRange_iff h m).1
    · rintro s m s' ⟨a, ch, rfl, h⟩ hkeeps hstep
      rw [← Option.some.inj hstep]
      exact (measure_inRange_iff h m).2 hkeeps
  · intro a ch raw weight hrange hch hne hconst
    obtain ⟨hraws, -, hweights⟩ := hrange hne ch hch
    refine ⟨hraws.eq_of_constant fun r hr => ?_, hweights.eq_of_constant fun w hw => ?_⟩
    · obtain ⟨s, hs, rfl⟩ := List.mem_map.mp hr
      rw [hconst s hs]
    · obtain ⟨s, hs, rfl⟩ := List.mem_map.mp hw
      rw [hconst s hs]

/-- A calibrated raw-data channel in service mode, with its averages. -/
def weighing (averagValue : AveragValue) : SystemConfiguration where
  flagSystem := flSystemConfigurationReady ||| flSystemServiceMode
  channelConfiguration :=
    [⟨1, flChannelRawData, 5000, 0, 0, averagValue, [⟨0, 0, 10⟩, ⟨100, 1000, 10⟩]⟩]

/-- A time of 10 from the clock reading 0 on. -/
def averagingTen : Option Averaging :=
  some ⟨(setAveragTime 0 ⟨⟨1, 10⟩, none⟩ (weighing ⟨0, 0, 0, 0⟩)).1, []⟩

/-- Averaging that starts with the empty scale. -/
theorem averages_in_range_from_zero :
    HoldsAlong (measureStep 1) (AveragesInRange 1) averagingTen
      [(1, ⟨1, 0, 0, 0⟩), (2, ⟨1, 100, 0, 0⟩)] := by
  have hch : channelOf (weighing ⟨0, 0, 0, 0⟩) 1 = some
      ⟨1, flChannelRawData, 5000, 0, 0, ⟨0, 0, 0, 0⟩, [⟨0, 0, 10⟩, ⟨100, 1000, 10⟩]⟩ := by
    decide +kernel
  have hstart : averagingTen = some ⟨weighing ⟨10, 0, 0, 0⟩, []⟩ := by decide +kernel
  have hstate : (some ⟨weighing ⟨10, 0, 0, 0⟩, []⟩ : Option Averaging).bind
      (measure 1 (1, ⟨1, 0, 0, 0⟩)) = some ⟨weighing ⟨10, 0, 0, 0⟩, [(0, 0)]⟩ := by decide +kernel
  have hweighing : channelOf (weighing ⟨10, 0, 0, 0⟩) 1 = some
      ⟨1, flChannelRawData, 5000, 0, 0, ⟨10, 0, 0, 0⟩, [⟨0, 0, 10⟩, ⟨100, 1000, 10⟩]⟩ := by
    decide +kernel
  have hratio : ratioFor [⟨0, 0, 10⟩, ⟨100, 1000, 10⟩] 0 = .finite 10 ∧
      ratioFor [⟨0, 0, 10⟩, ⟨100, 1000, 10⟩] 100 = .finite 10 := by decide +kernel
  have hsum : FloatValue.add 0 (.mul (.ofInt 100) (.finite 10)) = .finite 1000 := by decide +kernel
  refine (averages_in_range_iff (by decide) (by decide) hch 0 10 _).1.mpr ?_
  change MeetsAlong (measureStep 1) (KeepsRange 1) averagingTen _
  rw [hstart]
  intro s' hs'
  rw [← Option.some.inj hs', hstate]
  refine ⟨⟨by decide +kernel, fun _ ch hch' => ?_⟩, fun s'' _ => ⟨⟨by decide +kernel, ?_⟩, trivial⟩⟩
  · rw [← Option.some.inj (hweighing.symm.trans hch')]
    refine fun _ => ⟨fun _ => Or.inr rfl, ?_, fun hne => absurd rfl hne⟩
    rw [Channel.Weighs, hratio.1]
    simp
  · intro _ ch hch'
    rw [← Option.some.inj (hweighing.symm.trans hch')]
    refine fun _ => ⟨fun hnil => absurd hnil (by simp), ?_, fun _ _ => ?_⟩
    · rw [Channel.Weighs, hratio.2]
      simp
    · rw [Channel.weightAt, hratio.2]
      constructor
      · intro hnan
        cases hsum.symm.trans hnan
      · intro negative hinfinite
        cases hsum.symm.trans hinfinite

/-- A constant load of 100 averages to 50 at first. -/
theorem constant_load_halved :
    ¬ HoldsAlong (measureStep 1) (AveragesInRange 1) averagingTen [(1, ⟨1, 100, 0, 0⟩)] := by
  have hstate : averagingTen.bind (measure 1 (1, ⟨1, 100, 0, 0⟩)) =
      some ⟨weighing ⟨10, 500, 50, 0⟩, [(100, 1000)]⟩ := by decide +kernel
  intro h
  have hrange : AveragesInRange 1 (averagingTen.bind (measure 1 (1, ⟨1, 100, 0, 0⟩))) :=
    h.last rfl
  rw [hstate] at hrange
  have hbetween := (hrange (by simp) _ (by decide +kernel :
    channelOf (weighing ⟨10, 500, 50, 0⟩) 1 = some
      ⟨1, flChannelRawData, 5000, 0, 0, ⟨10, 500, 50, 0⟩, [⟨0, 0, 10⟩, ⟨100, 1000, 10⟩]⟩)).1
  exact absurd (BetweenSamples.singleton_iff.mp hbetween) (by decide)

end Runs

end Metrology
end MatrixBin
