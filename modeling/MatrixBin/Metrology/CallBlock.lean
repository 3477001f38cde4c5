import MatrixBin.Metrology.VpiHandlers

/-!
# The call block as a parameter structure

`setMaximum`, `setMinimum` and `addScale` cast the address of the call block where the other
handlers cast `pParam`.  The identifier and the weight that they use are the first two `int`s
of the block, the halves of `pInstanceData`, and not those of the structure that `pParam`
points to.

What a handler of a scale does depends on the identifier and the weight only, so both
questions, whether a call acts on its parameters and whether two calls have one effect, are
the question when two writes of a weight agree (`SameWrite`).
-/

namespace MatrixBin
namespace Metrology

/-! ### Call blocks -/

/-- `VDB` with `fun == NULL`, together with the structure at the address `pParam`. -/
structure CallBlock (π : Type) where
  pInstanceData : BitVec 64
  function : Int
  vpiNumber : Int
  paramSize : Int
  pParam : BitVec 64
  param : π
deriving DecidableEq

/-- `MaximumWeight_t` -/
structure MaximumWeight where
  idScale : Int
  maximumWeight : Int
deriving DecidableEq

/-- `MinimumWeight_t` -/
structure MinimumWeight where
  idScale : Int
  minimumWeight : Int
deriving DecidableEq

/-- `AddScale_t` -/
structure AddScale where
  idScale : Int
deriving DecidableEq

/-! ### Wanted effects -/

/-- A weight of a scale, as it is read and written. -/
structure WeightField where
  get : ScaleConfiguration → Int
  set : Int → ScaleConfiguration → ScaleConfiguration
  get_set : ∀ weight scale, get (set weight scale) = weight
  set_get : ∀ scale, set (get scale) scale = scale

def maximumWeightField : WeightField where
  get := ScaleConfiguration.maximumWeight
  set weight scale := { scale with maximumWeight := weight }
  get_set _ _ := rfl
  set_get _ := rfl

def minimumWeightField : WeightField where
  get := ScaleConfiguration.minimumWeight
  set weight scale := { scale with minimumWeight := weight }
  get_set _ _ := rfl
  set_get _ := rfl

/-- No scale has the identifier. -/
def UnknownScale (idScale : Int) (conf : MatrixConfiguration) : Prop :=
  ∀ scale ∈ conf.scaleConfiguration, scale.idScale ≠ idScale

/-- The first scale with the identifier gets the weight; an unknown identifier is an error. -/
inductive SetsWeight (F : WeightField) (idScale weight : Int) (conf : MatrixConfiguration) :
    MatrixConfiguration × Int → Prop
  | unknown (h : UnknownScale idScale conf) :
      SetsWeight F idScale weight conf (conf, matrixlibScaleError)
  | known (front : List ScaleConfiguration) (scale : ScaleConfiguration)
      (back : List ScaleConfiguration)
      (table : conf.scaleConfiguration = front ++ scale :: back)
      (first : ∀ other ∈ front, other.idScale ≠ idScale)
      (id : scale.idScale = idScale) :
      SetsWeight F idScale weight conf
        ({ conf with scaleConfiguration := front ++ F.set weight scale :: back }, matrixlibOk)

/-- A new scale with the identifier stands behind the others; a known identifier is an
error. -/
inductive AddsScale (idScale : Int) (conf : MatrixConfiguration) :
    MatrixConfiguration × Int → Prop
  | known (h : ¬ UnknownScale idScale conf) :
      AddsScale idScale conf (conf, matrixlibScaleError)
  | unknown (h : UnknownScale idScale conf) :
      AddsScale idScale conf
        ({ conf with
            scaleConfiguration :=
              conf.scaleConfiguration ++ [{ ScaleConfiguration.zeroed with idScale := idScale }] },
          matrixlibOk)

/-! ### Conditions -/

/-- The scale that `getIdxScale` addresses. -/
def MatrixConfiguration.scaleOf
    (conf : MatrixConfiguration) (idScale : Int) : Option ScaleConfiguration :=
  conf.scaleConfiguration.find? fun scale => scale.idScale == idScale

/-- Writing one weight to one scale does what writing another does to another: neither scale is
there, or both writes are the same, or each scale has its weight already. -/
def SameWrite (F : WeightField) (conf : MatrixConfiguration) (id weight id' weight' : Int) : Prop :=
  match conf.scaleOf id, conf.scaleOf id' with
  | none, none => True
  | some scale, some scale' =>
      if id = id' then weight = weight' else F.get scale = weight ∧ F.get scale' = weight'
  | _, _ => False

instance (F : WeightField) (conf : MatrixConfiguration) (id weight id' weight' : Int) :
    Decidable (SameWrite F conf id weight id' weight') :=
  match h : conf.scaleOf id, h' : conf.scaleOf id' with
  | none, none => isTrue (by simp [SameWrite, h, h'])
  | none, some _ => isFalse (by simp [SameWrite, h, h'])
  | some _, none => isFalse (by simp [SameWrite, h, h'])
  | some scale, some scale' =>
      decidable_of_iff
        (if id = id' then weight = weight' else F.get scale = weight ∧ F.get scale' = weight')
        (by simp [SameWrite, h, h'])

/-- Adding one scale does what adding another does: both are there already, or they are one new
scale. -/
def SameScale (conf : MatrixConfiguration) (id id' : Int) : Prop :=
  match conf.scaleOf id, conf.scaleOf id' with
  | none, none => id = id'
  | some _, some _ => True
  | _, _ => False

/-! ### Finding scales -/

section Finding

variable {conf : MatrixConfiguration} {id : Int}

theorem scaleOf_eq_none_iff : conf.scaleOf id = none ↔ UnknownScale id conf := by
  simp [MatrixConfiguration.scaleOf, UnknownScale]

theorem scaleOf_eq_some_iff {scale : ScaleConfiguration} :
    conf.scaleOf id = some scale ↔
      scale.idScale = id ∧
        ∃ front back, conf.scaleConfiguration = front ++ scale :: back ∧
          ∀ other ∈ front, other.idScale ≠ id := by
  simp [MatrixConfiguration.scaleOf, List.find?_eq_some_iff_append]

theorem getIdxScale_eq_none (h : conf.scaleOf id = none) : conf.getIdxScale id = none := by
  rw [MatrixConfiguration.getIdxScale, List.findIdx?_eq_none_iff]
  simpa [UnknownScale] using scaleOf_eq_none_iff.mp h

theorem getIdxScale_eq_some
    {front back : List ScaleConfiguration}
    {scale : ScaleConfiguration}
    (htable : conf.scaleConfiguration = front ++ scale :: back)
    (hfirst : ∀ other ∈ front, other.idScale ≠ id)
    (hid : scale.idScale = id) :
    conf.getIdxScale id = some front.length := by
  have hfront : front.findIdx? (fun other => other.idScale == id) = none := by
    rw [List.findIdx?_eq_none_iff]
    simpa using hfirst
  rw [MatrixConfiguration.getIdxScale, htable, List.findIdx?_append, hfront,
    List.findIdx?_cons, hid]
  simp

end Finding

/-! ### What the handlers do -/

section Handlers

variable {conf : MatrixConfiguration}

theorem setWeight_unknown
    (hready : conf.ready)
    (hservice : conf.serviceMode)
    {id : Int}
    (hid : conf.scaleOf id = none)
    (update : ScaleConfiguration → ScaleConfiguration) :
    scaleHandler id update conf = (conf, matrixlibScaleError) := by
  simp [scaleHandler, hready, hservice, getIdxScale_eq_none hid]

theorem setWeight_known
    (hready : conf.ready)
    (hservice : conf.serviceMode)
    {id : Int}
    {front back : List ScaleConfiguration}
    {scale : ScaleConfiguration}
    (htable : conf.scaleConfiguration = front ++ scale :: back)
    (hfirst : ∀ other ∈ front, other.idScale ≠ id)
    (hid : scale.idScale = id)
    (update : ScaleConfiguration → ScaleConfiguration) :
    scaleHandler id update conf =
      ({ conf with scaleConfiguration := front ++ update scale :: back }, matrixlibOk) := by
  have hidx := getIdxScale_eq_some htable hfirst hid
  have hget : conf.scaleConfiguration[front.length]? = some scale := by simp [htable]
  have hset : conf.setScale front.length (update scale) =
      { conf with scaleConfiguration := front ++ update scale :: back } := by
    simp [MatrixConfiguration.setScale, htable]
  simp [scaleHandler, hready, hservice, hidx, hget, hset]

/-- The wanted effect is what the frame of the handlers does with the wanted parameters. -/
theorem setsWeight_iff
    (hready : conf.ready)
    (hservice : conf.serviceMode)
    (F : WeightField)
    (id weight : Int)
    (result : MatrixConfiguration × Int) :
    SetsWeight F id weight conf result ↔ result = scaleHandler id (F.set weight) conf := by
  constructor
  · rintro (hunknown | ⟨front, scale, back, htable, hfirst, hid⟩)
    · exact (setWeight_unknown hready hservice (scaleOf_eq_none_iff.mpr hunknown) _).symm
    · exact (setWeight_known hready hservice htable hfirst hid _).symm
  · rintro rfl
    cases hscale : conf.scaleOf id with
    | none =>
        rw [setWeight_unknown hready hservice hscale]
        exact SetsWeight.unknown (scaleOf_eq_none_iff.mp hscale)
    | some scale =>
        obtain ⟨hid, front, back, htable, hfirst⟩ := scaleOf_eq_some_iff.mp hscale
        rw [setWeight_known hready hservice htable hfirst hid]
        exact SetsWeight.known front scale back htable hfirst hid

/-- What adding a scale does in service mode. -/
def addResult (conf : MatrixConfiguration) (id : Int) : MatrixConfiguration × Int :=
  if conf.scaleOf id = none then
    ({ conf with
        scaleConfiguration :=
          conf.scaleConfiguration ++ [{ ScaleConfiguration.zeroed with idScale := id }] },
      matrixlibOk)
  else (conf, matrixlibScaleError)

theorem addScale_eq
    (hready : conf.ready)
    (hservice : conf.serviceMode)
    (pInstanceData : BitVec 64) :
    addScale pInstanceData conf = addResult conf (vdbIdScale pInstanceData) := by
  unfold addResult
  cases hscale : conf.scaleOf (vdbIdScale pInstanceData) with
  | none => simp [addScale, hready, hservice, getIdxScale_eq_none hscale]
  | some scale =>
      obtain ⟨hid, front, back, htable, hfirst⟩ := scaleOf_eq_some_iff.mp hscale
      simp [addScale, hready, hservice, getIdxScale_eq_some htable hfirst hid]

theorem addsScale_iff
    (id : Int)
    (result : MatrixConfiguration × Int) :
    AddsScale id conf result ↔ result = addResult conf id := by
  constructor
  · rintro (hknown | hunknown)
    · rw [addResult, if_neg fun h => hknown (scaleOf_eq_none_iff.mp h)]
    · rw [addResult, if_pos (scaleOf_eq_none_iff.mpr hunknown)]
  · rintro rfl
    unfold addResult
    split
    next h => exact AddsScale.unknown (scaleOf_eq_none_iff.mp h)
    next h => exact AddsScale.known fun hunknown => h (scaleOf_eq_none_iff.mpr hunknown)

theorem addResult_eq_iff
    (id id' : Int) :
    addResult conf id = addResult conf id' ↔ SameScale conf id id' := by
  have hcodes : matrixlibScaleError ≠ matrixlibOk := by decide
  unfold addResult SameScale
  cases conf.scaleOf id with
  | none =>
      cases conf.scaleOf id' with
      | none => simp [MatrixConfiguration.mk.injEq, ScaleConfiguration.mk.injEq]
      | some scale' => exact iff_of_false (fun h => hcodes (congrArg Prod.snd h).symm) not_false
  | some scale =>
      cases conf.scaleOf id' with
      | none => exact iff_of_false (fun h => hcodes (congrArg Prod.snd h)) not_false
      | some scale' => exact iff_of_true rfl trivial

/-- Two writes into a list agree if they are one write, or if both write what is there. -/
theorem set_eq_set_iff
    {α : Type}
    {l : List α}
    {i j : Nat}
    {a b : α}
    (hi : l[i]? = some a)
    (hj : l[j]? = some b)
    (x y : α) :
    l.set i x = l.set j y ↔ if i = j then x = y else x = a ∧ y = b := by
  have hilt := (List.getElem?_eq_some_iff.mp hi).1
  have hjlt := (List.getElem?_eq_some_iff.mp hj).1
  split
  next heq =>
    subst heq
    constructor
    · intro h
      have hat := congrArg (fun l => l[i]?) h
      simpa [hilt] using hat
    · rintro rfl
      rfl
  next hne =>
    constructor
    · intro h
      have hati := congrArg (fun l => l[i]?) h
      have hatj := congrArg (fun l => l[j]?) h
      simp only [List.getElem?_set_self hilt, List.getElem?_set_ne (Ne.symm hne), hi,
        Option.some.injEq] at hati
      simp only [List.getElem?_set_self hjlt, List.getElem?_set_ne hne, hj,
        Option.some.injEq] at hatj
      exact ⟨hati, hatj.symm⟩
    · rintro ⟨rfl, rfl⟩
      have hself {k : Nat} {c : α} (hk : l[k]? = some c) : l.set k c = l := by
        obtain ⟨hlt, rfl⟩ := List.getElem?_eq_some_iff.mp hk
        exact List.set_getElem_self hlt
      rw [hself hi, hself hj]

theorem WeightField.set_eq_self_iff
    (F : WeightField)
    (scale : ScaleConfiguration)
    (weight : Int) :
    F.set weight scale = scale ↔ F.get scale = weight := by
  constructor
  · intro h
    rw [← h, F.get_set]
  · rintro rfl
    exact F.set_get scale

theorem WeightField.set_inj
    (F : WeightField)
    (scale : ScaleConfiguration)
    (weight weight' : Int) :
    F.set weight scale = F.set weight' scale ↔ weight = weight' := by
  constructor
  · intro h
    rw [← F.get_set weight scale, h, F.get_set]
  · rintro rfl
    rfl

/-- Two writes to scales that are there. -/
theorem scaleHandler_eq_iff_of_known
    {scale scale' : ScaleConfiguration}
    (hready : conf.ready)
    (hservice : conf.serviceMode)
    (F : WeightField)
    {id id' : Int}
    (hscale : conf.scaleOf id = some scale)
    (hscale' : conf.scaleOf id' = some scale')
    (weight weight' : Int) :
    scaleHandler id (F.set weight) conf = scaleHandler id' (F.set weight') conf ↔
      if id = id' then weight = weight' else F.get scale = weight ∧ F.get scale' = weight' := by
  obtain ⟨hid, front, back, htable, hfirst⟩ := scaleOf_eq_some_iff.mp hscale
  obtain ⟨hid', front', back', htable', hfirst'⟩ := scaleOf_eq_some_iff.mp hscale'
  have hget : conf.scaleConfiguration[front.length]? = some scale := by simp [htable]
  have hget' : conf.scaleConfiguration[front'.length]? = some scale' := by simp [htable']
  -- the positions of the two scales are the same exactly if the identifiers are
  have hsame : front.length = front'.length ↔ id = id' := by
    constructor
    · intro hlen
      rw [hlen] at hget
      rw [← hid, ← hid', Option.some.inj (hget.symm.trans hget')]
    · rintro rfl
      have hidx := getIdxScale_eq_some htable hfirst hid
      exact Option.some.inj (hidx.symm.trans (getIdxScale_eq_some htable' hfirst' hid'))
  have hset (x : ScaleConfiguration) :
      front ++ x :: back = conf.scaleConfiguration.set front.length x := by simp [htable]
  have hset' (x : ScaleConfiguration) :
      front' ++ x :: back' = conf.scaleConfiguration.set front'.length x := by simp [htable']
  rw [setWeight_known hready hservice htable hfirst hid,
    setWeight_known hready hservice htable' hfirst' hid', hset, hset', Prod.mk.injEq,
    MatrixConfiguration.mk.injEq]
  simp only [true_and, and_true]
  rw [set_eq_set_iff hget hget']
  simp only [hsame, F.set_eq_self_iff]
  by_cases hids : id = id'
  · subst hids
    rw [if_pos rfl, if_pos rfl, Option.some.inj (hscale.symm.trans hscale'), F.set_inj]
  · rw [if_neg hids, if_neg hids]

/-- When two calls of a handler of a weight have one effect. -/
theorem scaleHandler_eq_iff
    (hready : conf.ready)
    (hservice : conf.serviceMode)
    (F : WeightField)
    (id weight id' weight' : Int) :
    scaleHandler id (F.set weight) conf = scaleHandler id' (F.set weight') conf ↔
      SameWrite F conf id weight id' weight' := by
  have hcodes : matrixlibScaleError ≠ matrixlibOk := by decide
  have hknown {id : Int} {scale : ScaleConfiguration}
      (hscale : conf.scaleOf id = some scale) (weight : Int) :
      (scaleHandler id (F.set weight) conf).2 = matrixlibOk := by
    obtain ⟨hid, front, back, htable, hfirst⟩ := scaleOf_eq_some_iff.mp hscale
    rw [setWeight_known hready hservice htable hfirst hid]
  unfold SameWrite
  cases hscale : conf.scaleOf id with
  | none =>
      rw [setWeight_unknown hready hservice hscale]
      cases hscale' : conf.scaleOf id' with
      | none =>
          rw [setWeight_unknown hready hservice hscale']
          exact iff_of_true rfl trivial
      | some scale' =>
          refine iff_of_false (fun h => hcodes ?_) not_false
          exact (congrArg Prod.snd h).trans (hknown hscale' weight')
  | some scale =>
      cases hscale' : conf.scaleOf id' with
      | none =>
          rw [setWeight_unknown hready hservice hscale']
          refine iff_of_false (fun h => hcodes ?_) not_false
          exact (congrArg Prod.snd h).symm.trans (hknown hscale weight)
      | some scale' =>
          exact scaleHandler_eq_iff_of_known hready hservice F hscale hscale' weight weight'

/-- **The parameters of a call block.**  In service mode a call acts on the structure that
`pParam` points to, and two calls with equal structures have one effect, exactly if the write
that the halves of `pInstanceData` ask for is the same write. -/
theorem callBlock_params_iff
    (hready : conf.ready)
    (hservice : conf.serviceMode) :
    (∀ vdb : CallBlock MaximumWeight,
      SetsWeight maximumWeightField vdb.param.idScale vdb.param.maximumWeight conf
          (setMaximum vdb.pInstanceData conf) ↔
        SameWrite maximumWeightField conf
          (vdbIdScale vdb.pInstanceData) (vdbWeight vdb.pInstanceData)
          vdb.param.idScale vdb.param.maximumWeight) ∧
      (∀ vdb : CallBlock MinimumWeight,
        SetsWeight minimumWeightField vdb.param.idScale vdb.param.minimumWeight conf
            (setMinimum vdb.pInstanceData conf) ↔
          SameWrite minimumWeightField conf
            (vdbIdScale vdb.pInstanceData) (vdbWeight vdb.pInstanceData)
            vdb.param.idScale vdb.param.minimumWeight) ∧
      (∀ vdb : CallBlock AddScale,
        AddsScale vdb.param.idScale conf (addScale vdb.pInstanceData conf) ↔
          SameScale conf (vdbIdScale vdb.pInstanceData) vdb.param.idScale) ∧
      (∀ vdb vdb' : CallBlock MaximumWeight, vdb.param = vdb'.param →
        (setMaximum vdb.pInstanceData conf = setMaximum vdb'.pInstanceData conf ↔
          SameWrite maximumWeightField conf
            (vdbIdScale vdb.pInstanceData) (vdbWeight vdb.pInstanceData)
            (vdbIdScale vdb'.pInstanceData) (vdbWeight vdb'.pInstanceData))) ∧
      (∀ vdb vdb' : CallBlock MinimumWeight, vdb.param = vdb'.param →
        (setMinimum vdb.pInstanceData conf = setMinimum vdb'.pInstanceData conf ↔
          SameWrite minimumWeightField conf
            (vdbIdScale vdb.pInstanceData) (vdbWeight vdb.pInstanceData)
            (vdbIdScale vdb'.pInstanceData) (vdbWeight vdb'.pInstanceData))) ∧
      ∀ vdb vdb' : CallBlock AddScale, vdb.param = vdb'.param →
        (addScale vdb.pInstanceData conf = addScale vdb'.pInstanceData conf ↔
          SameScale conf (vdbIdScale vdb.pInstanceData) (vdbIdScale vdb'.pInstanceData)) := by
  refine ⟨fun vdb => ?_, fun vdb => ?_, fun vdb => ?_, fun vdb vdb' _ => ?_,
    fun vdb vdb' _ => ?_, fun vdb vdb' _ => ?_⟩
  · rw [setsWeight_iff hready hservice]
    exact scaleHandler_eq_iff hready hservice maximumWeightField _ _ _ _
  · rw [setsWeight_iff hready hservice]
    exact scaleHandler_eq_iff hready hservice minimumWeightField _ _ _ _
  · rw [addsScale_iff, addScale_eq hready hservice]
    exact addResult_eq_iff _ _
  · exact scaleHandler_eq_iff hready hservice maximumWeightField _ _ _ _
  · exact scaleHandler_eq_iff hready hservice minimumWeightField _ _ _ _
  · rw [addScale_eq hready hservice, addScale_eq hready hservice]
    exact addResult_eq_iff _ _

/-- The scale 1 up to 5000, in service mode. -/
def oneScale : MatrixConfiguration :=
  { initialization with
    flagSystem := flSystemConfigurationReady ||| flSystemServiceMode
    scaleConfiguration := [{ ScaleConfiguration.zeroed with idScale := 1, maximumWeight := 5000 }] }

/-- The call "scale 1 gets the maximum 9000", with a value for `pInstanceData`. -/
def maximumBlock (pInstanceData : BitVec 64) : CallBlock MaximumWeight where
  pInstanceData := pInstanceData
  function := 105
  vpiNumber := 0
  paramSize := 8
  pParam := 0x7fff0000
  param := ⟨1, 9000⟩

/-- A block whose instance pointer happens to repeat the parameters does what it says. -/
theorem callBlock_params_repeated :
    SetsWeight maximumWeightField 1 9000 oneScale
      (setMaximum (maximumBlock 0x0000232800000001).pInstanceData oneScale) := by
  have h := @callBlock_params_iff oneScale (by decide) (by decide)
  refine (h.1 (maximumBlock 0x0000232800000001)).mpr ?_
  decide

/-- With a null instance pointer the call is refused, with another one the scale gets the
maximum 2000. -/
theorem callBlock_params_ignored :
    (¬ SetsWeight maximumWeightField 1 9000 oneScale
        (setMaximum (maximumBlock 0).pInstanceData oneScale)) ∧
      (maximumBlock 0).param = (maximumBlock 0x000007d000000001).param ∧
      setMaximum (maximumBlock 0).pInstanceData oneScale ≠
        setMaximum (maximumBlock 0x000007d000000001).pInstanceData oneScale := by
  have hcode : (setMaximum (maximumBlock 0).pInstanceData oneScale).2 = matrixlibScaleError := by
    decide
  have hcode' : (setMaximum (maximumBlock 0x000007d000000001).pInstanceData oneScale).2 =
      matrixlibOk := by decide
  refine ⟨fun h => ?_, rfl, fun h => ?_⟩
  · rw [setsWeight_iff (by decide) (by decide)] at h
    have hwanted : (scaleHandler 1 (maximumWeightField.set 9000) oneScale).2 = matrixlibOk := by
      decide
    rw [h, hwanted] at hcode
    exact absurd hcode (by decide)
  · rw [h, hcode'] at hcode
    exact absurd hcode (by decide)

end Handlers

end Metrology
end MatrixBin
