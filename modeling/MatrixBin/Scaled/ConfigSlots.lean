import MatrixBin.Library.MemoryBlocks
import MatrixBin.Scaled.LduStatus

/-!
# The texts of the sections Status, Gross and Unit (`config.c`)

For each of the three sections `loadConfig` allocates the slots with `Length + 1` bytes, clears
them and copies the texts.  The length is an `unsigned int`, so `Length + 1` may be 0.  The
block of Status copies UnderLoad into the slot of OverLoad, and that of Unit clears the slots
of Gross.  A section that the file leaves out is an empty one with `Length` 0: libconfuse makes
it, and `cfg_getnsec` never gives a null pointer.
-/

namespace MatrixBin
namespace Scaled

open Library

/-- `enum egross` -/
inductive Egross
  | gross
  | net
deriving DecidableEq

/-- `enum eunit` -/
inductive Eunit
  | kg
  | g
deriving DecidableEq

/-- The three sections that fill slots. -/
inductive TextSections
  | status
  | gross
  | unit
deriving DecidableEq

/-- The entries of `status`, `gross` and `unit` -/
inductive Slot
  | status (i : Estatus)
  | gross (i : Egross)
  | unit (i : Eunit)
deriving DecidableEq

def Slot.owner : Slot → TextSections
  | .status _ => .status
  | .gross _ => .gross
  | .unit _ => .unit

/-- A section; a text that is not set is a null pointer. -/
structure TextSection (α : Type) where
  length : ℤ
  text : α → Option (List UInt8)

/-- The section that libconfuse makes when the file has none. -/
def TextSection.none {α : Type} : TextSection α := ⟨0, fun _ => Option.none⟩

/-- `(unsigned int)cfg_getint(sec,"Length")` -/
def TextSection.len {α : Type} (sec : TextSection α) : Nat := (sec.length % 2 ^ 32).toNat

/-- `len+1` as an `unsigned int` -/
def slotSize (len : Nat) : Nat := (len + 1) % 2 ^ 32

/-- The three sections of a file. -/
structure TextFile where
  status : Option (TextSection Estatus)
  gross : Option (TextSection Egross)
  unit : Option (TextSection Eunit)

abbrev SlotMemory := Blocks TextSections Slot

def statusSlots : List Slot :=
  [.status .statusStable, .status .statusUnstable, .status .statusOverload,
    .status .statusUnderload]

def grossSlots : List Slot := [.gross .gross, .gross .net]

/-- The block of `loadConfig` for Status. -/
def loadStatus (junk : Slot → Nat → UInt8) (sec : TextSection Estatus) (m : SlotMemory) :
    Option SlotMemory :=
  (Blocks.allocate .status junk (slotSize sec.len)
      (statusSlots.map fun slot => (slot, slot)) m).bind <|
    Blocks.copyTexts .status sec.len
      [(.status .statusStable, sec.text .statusStable),
        (.status .statusUnstable, sec.text .statusUnstable),
        (.status .statusOverload, sec.text .statusOverload),
        (.status .statusOverload, sec.text .statusUnderload)]

/-- The block for Gross. -/
def loadGross (junk : Slot → Nat → UInt8) (sec : TextSection Egross) (m : SlotMemory) :
    Option SlotMemory :=
  (Blocks.allocate .gross junk (slotSize sec.len)
      (grossSlots.map fun slot => (slot, slot)) m).bind <|
    Blocks.copyTexts .gross sec.len
      [(.gross .net, sec.text .net), (.gross .gross, sec.text .gross)]

/-- The block for Unit: the slots of Gross are cleared. -/
def loadUnit (junk : Slot → Nat → UInt8) (sec : TextSection Eunit) (m : SlotMemory) :
    Option SlotMemory :=
  (Blocks.allocate .unit junk (slotSize sec.len)
      [(.unit .kg, .gross .gross), (.unit .g, .gross .net)] m).bind <|
    Blocks.copyTexts .unit sec.len
      [(.unit .kg, sec.text .kg), (.unit .g, sec.text .g)]

/-- The slots are null pointers at first. -/
def noSlots : SlotMemory := ⟨fun _ => [], []⟩

/-- `loadConfig` behind the section Weight; `junk` is what the new blocks contain. -/
def loadTexts (junk : Slot → Nat → UInt8) (file : TextFile) : Option SlotMemory :=
  (loadStatus junk (file.status.getD .none) noSlots).bind fun m =>
    (loadGross junk (file.gross.getD .none) m).bind fun m =>
      loadUnit junk (file.unit.getD .none) m

/-! ### What the slots should hold -/

/-- Every slot of a section of the file holds the first characters of its own text. -/
structure TextFile.SlotsHold (file : TextFile) (m : SlotMemory) : Prop where
  status : ∀ sec, file.status = some sec →
    ∀ i, Blocks.HoldsText sec.len (sec.text i) (m.mem (.status i))
  gross : ∀ sec, file.gross = some sec →
    ∀ i, Blocks.HoldsText sec.len (sec.text i) (m.mem (.gross i))
  unit : ∀ sec, file.unit = some sec →
    ∀ i, Blocks.HoldsText sec.len (sec.text i) (m.mem (.unit i))

/-- The slots hold their texts, and no section has written outside its own slots. -/
def TextFile.LoadsTexts (file : TextFile) (junk : Slot → Nat → UInt8) : Prop :=
  ∃ m, loadTexts junk file = some m ∧ file.SlotsHold m ∧ m.KeepOwn Slot.owner

/-- The first `Length` characters of a text. -/
def TextSection.cut {α : Type} (sec : TextSection α) (i : α) : List UInt8 :=
  (stringAt ((sec.text i).getD [])).take sec.len

/-- A slot of Unit is right by what its block happens to contain. -/
def TextSection.Ends (sec : TextSection Eunit) (junk : Slot → Nat → UInt8) (i : Eunit) : Prop :=
  match sec.text i with
  | .none => junk (.unit i) 0 = 0
  | some t => (stringAt t).length < sec.len ∨ junk (.unit i) sec.len = 0

/-- The texts that survive. -/
structure TextFile.Fits (file : TextFile) (junk : Slot → Nat → UInt8) : Prop where
  status : ∀ sec, file.status = some sec → sec.len + 1 < 2 ^ 32 ∧
    (sec.text .statusUnderload = none ∨
      sec.cut .statusUnderload = [] ∧ sec.cut .statusOverload = [])
  gross : ∀ sec, file.gross = some sec → sec.len + 1 < 2 ^ 32 ∧ ∀ i, sec.cut i = []
  room : (file.unit.getD .none).len ≤ (file.gross.getD .none).len
  unit : ∀ sec, file.unit = some sec → sec.len + 1 < 2 ^ 32 ∧ ∀ i, sec.Ends junk i

section Blocks

variable {junk : Slot → Nat → UInt8} {m after : SlotMemory}

theorem TextSection.len_lt
    {α : Type}
    (sec : TextSection α) :
    sec.len < 2 ^ 32 := by
  rw [TextSection.len]
  omega

theorem slotSize_of_lt
    {len : Nat}
    (h : len + 1 < 2 ^ 32) :
    slotSize len = len + 1 :=
  Nat.mod_eq_of_lt h

/-- A slot of no bytes holds nothing. -/
theorem len_of_holdsText
    {α : Type}
    {sec : TextSection α}
    {text : Option (List UInt8)}
    {block : List UInt8}
    (hlen : block.length = slotSize sec.len)
    (h : Blocks.HoldsText sec.len text block) :
    sec.len + 1 < 2 ^ 32 := by
  by_contra hwrap
  have hzero : slotSize sec.len = 0 := by
    have hlt := sec.len_lt
    rw [slotSize, show sec.len + 1 = 2 ^ 32 by omega, Nat.mod_self]
  rw [hzero, List.length_eq_zero_iff] at hlen
  rw [hlen] at h
  exact Blocks.not_holdsText_nil h

/-- The texts are copied into cleared slots. -/
theorem loadStatus_eq
    (junk : Slot → Nat → UInt8)
    (sec : TextSection Estatus)
    (m : SlotMemory) :
    ∃ mid : SlotMemory,
      (∀ slot, mid.mem slot =
        if slot ∈ statusSlots then List.replicate (slotSize sec.len) 0 else m.mem slot) ∧
      loadStatus junk sec m = Blocks.copyTexts .status sec.len
        [(.status .statusStable, sec.text .statusStable),
          (.status .statusUnstable, sec.text .statusUnstable),
          (.status .statusOverload, sec.text .statusOverload),
          (.status .statusOverload, sec.text .statusUnderload)] mid := by
  obtain ⟨mid, hmid, hmem⟩ := Blocks.allocate_own TextSections.status junk (slotSize sec.len)
    statusSlots m
  exact ⟨mid, hmem, by rw [loadStatus, hmid, Option.bind_some]⟩

theorem loadGross_eq
    (junk : Slot → Nat → UInt8)
    (sec : TextSection Egross)
    (m : SlotMemory) :
    ∃ mid : SlotMemory,
      (∀ slot, mid.mem slot =
        if slot ∈ grossSlots then List.replicate (slotSize sec.len) 0 else m.mem slot) ∧
      loadGross junk sec m = Blocks.copyTexts .gross sec.len
        [(.gross .net, sec.text .net), (.gross .gross, sec.text .gross)] mid := by
  obtain ⟨mid, hmid, hmem⟩ := Blocks.allocate_own TextSections.gross junk (slotSize sec.len)
    grossSlots m
  exact ⟨mid, hmem, by rw [loadGross, hmid, Option.bind_some]⟩

/-- The slots behind the block for Status. -/
theorem loadStatus_mem
    {sec : TextSection Estatus}
    (h : loadStatus junk sec m = some after) :
    let cleared := List.replicate (slotSize sec.len) 0
    after.mem (.status .statusStable) =
        Blocks.overwrite sec.len (sec.text .statusStable) cleared ∧
      after.mem (.status .statusUnstable) =
        Blocks.overwrite sec.len (sec.text .statusUnstable) cleared ∧
      after.mem (.status .statusOverload) =
        Blocks.overwrite sec.len (sec.text .statusUnderload)
          (Blocks.overwrite sec.len (sec.text .statusOverload) cleared) ∧
      after.mem (.status .statusUnderload) = cleared := by
  obtain ⟨mid, hmem, hcopy⟩ := loadStatus_eq junk sec m
  rw [hcopy] at h
  rw [Blocks.copyTexts_mem h]
  simp [hmem, statusSlots]

theorem loadStatus_isSome
    (junk : Slot → Nat → UInt8)
    (m : SlotMemory)
    {sec : TextSection Estatus}
    (hlen : sec.len + 1 < 2 ^ 32) :
    (loadStatus junk sec m).isSome := by
  obtain ⟨mid, hmem, hcopy⟩ := loadStatus_eq junk sec m
  rw [hcopy, Blocks.copyTexts_isSome_iff]
  simp [hmem, statusSlots, slotSize_of_lt hlen]

theorem loadGross_length
    {sec : TextSection Egross}
    (h : loadGross junk sec m = some after)
    (i : Egross) :
    (after.mem (.gross i)).length = slotSize sec.len := by
  obtain ⟨mid, hmem, hcopy⟩ := loadGross_eq junk sec m
  rw [hcopy] at h
  rw [Blocks.copyTexts_length h, hmem]
  cases i <;> simp [grossSlots]

theorem loadGross_frame
    {sec : TextSection Egross}
    (h : loadGross junk sec m = some after)
    (i : Estatus) :
    after.mem (.status i) = m.mem (.status i) := by
  obtain ⟨mid, hmem, hcopy⟩ := loadGross_eq junk sec m
  rw [hcopy] at h
  rw [Blocks.copyTexts_mem h]
  simp [hmem, grossSlots]

theorem loadGross_isSome
    (junk : Slot → Nat → UInt8)
    (m : SlotMemory)
    {sec : TextSection Egross}
    (hlen : sec.len + 1 < 2 ^ 32) :
    (loadGross junk sec m).isSome := by
  obtain ⟨mid, hmem, hcopy⟩ := loadGross_eq junk sec m
  rw [hcopy, Blocks.copyTexts_isSome_iff]
  simp [hmem, grossSlots, slotSize_of_lt hlen]

/-- The loop for Unit, whose clears must fit the slots of Gross. -/
theorem allocate_unit
    (junk : Slot → Nat → UInt8)
    (size : Nat)
    (m : SlotMemory) :
    Blocks.allocate .unit junk size [(.unit .kg, .gross .gross), (.unit .g, .gross .net)] m =
      if size ≤ (m.mem (.gross .gross)).length ∧ size ≤ (m.mem (.gross .net)).length then
        some
          { mem := fun slot =>
              match slot with
              | .status i => m.mem (.status i)
              | .gross i => List.replicate size 0 ++ (m.mem (.gross i)).drop size
              | .unit i => (List.range size).map (junk (.unit i))
            writes := m.writes ++ [⟨.unit, .gross .gross, size⟩] ++ [⟨.unit, .gross .net, size⟩] }
      else none := by
  by_cases hgross : size ≤ (m.mem (.gross .gross)).length
  · by_cases hnet : size ≤ (m.mem (.gross .net)).length
    · simp only [Blocks.allocate, Blocks.memset, Blocks.write, Blocks.malloc,
        List.length_replicate, ne_eq, reduceCtorEq, not_false_eq_true, Function.update_of_ne,
        Slot.gross.injEq, hgross, hnet, if_true, Option.bind_some, and_self, Option.some.injEq,
        Blocks.mk.injEq, and_true]
      funext slot
      rcases slot with i | i | i
      · simp
      · cases i <;> simp
      · cases i <;> simp
    · simp [Blocks.allocate, Blocks.memset, Blocks.write, Blocks.malloc, hgross, hnet]
  · simp [Blocks.allocate, Blocks.memset, Blocks.write, Blocks.malloc, hgross]

/-- The slots and the writes behind the block for Unit. -/
theorem loadUnit_mem
    {sec : TextSection Eunit}
    (h : loadUnit junk sec m = some after) :
    (∀ i, slotSize sec.len ≤ (m.mem (.gross i)).length) ∧
      (∀ i, after.mem (.status i) = m.mem (.status i)) ∧
      (∀ i, after.mem (.gross i) =
        List.replicate (slotSize sec.len) 0 ++ (m.mem (.gross i)).drop (slotSize sec.len)) ∧
      (∀ i, after.mem (.unit i) = Blocks.overwrite sec.len (sec.text i)
        ((List.range (slotSize sec.len)).map (junk (.unit i)))) ∧
      ⟨.unit, .gross .gross, slotSize sec.len⟩ ∈ after.writes := by
  rw [loadUnit, allocate_unit] at h
  split at h
  next hfit =>
    rw [Option.bind_some] at h
    have hwrites := Blocks.copyTexts_writes h
    refine ⟨?_, ?_, ?_, ?_, ?_⟩
    · rintro (_ | _)
      · exact hfit.1
      · exact hfit.2
    · intro i
      rw [Blocks.copyTexts_mem h]
      simp
    · intro i
      rw [Blocks.copyTexts_mem h]
      simp
    · intro i
      rw [Blocks.copyTexts_mem h]
      cases i <;> simp
    · exact hwrites (by simp)
  next => exact nomatch h

theorem loadUnit_length
    {sec : TextSection Eunit}
    (h : loadUnit junk sec m = some after)
    (i : Eunit) :
    (after.mem (.unit i)).length = slotSize sec.len := by
  rw [loadUnit, allocate_unit] at h
  split at h
  next =>
    rw [Option.bind_some] at h
    rw [Blocks.copyTexts_length h]
    simp
  next => exact nomatch h

theorem loadUnit_isSome
    (junk : Slot → Nat → UInt8)
    {sec : TextSection Eunit}
    (hlen : sec.len + 1 < 2 ^ 32)
    (hgross : ∀ i, sec.len + 1 ≤ (m.mem (.gross i)).length) :
    (loadUnit junk sec m).isSome := by
  rw [loadUnit, allocate_unit, slotSize_of_lt hlen, if_pos ⟨hgross .gross, hgross .net⟩,
    Option.bind_some, Blocks.copyTexts_isSome_iff]
  simp

end Blocks

section Files

variable {file : TextFile} {junk : Slot → Nat → UInt8} {m : SlotMemory}

/-- The section of a file or an empty one; only the one of the file can have a length that
wraps. -/
theorem len_getD
    {α : Type}
    {sec : Option (TextSection α)}
    (h : ∀ s, sec = some s → s.len + 1 < 2 ^ 32) :
    (sec.getD .none).len + 1 < 2 ^ 32 := by
  cases sec with
  | none => simp [TextSection.none, TextSection.len]
  | some s => exact h s rfl

theorem loadTexts_eq_some_iff :
    loadTexts junk file = some m ↔
      ∃ ms mg, loadStatus junk (file.status.getD .none) noSlots = some ms ∧
        loadGross junk (file.gross.getD .none) ms = some mg ∧
        loadUnit junk (file.unit.getD .none) mg = some m := by
  simp only [loadTexts, Option.bind_eq_some_iff]
  constructor
  · rintro ⟨ms, hs, mg, hg, hu⟩
    exact ⟨ms, mg, hs, hg, hu⟩
  · rintro ⟨ms, mg, hs, hg, hu⟩
    exact ⟨ms, hs, mg, hg, hu⟩

/-- The slots of Unit that hold their texts have at least one byte. -/
theorem TextFile.SlotsHold.unit_len
    (hload : loadTexts junk file = some m)
    (h : file.SlotsHold m) :
    (file.unit.getD .none).len + 1 < 2 ^ 32 := by
  obtain ⟨ms, mg, -, -, hu⟩ := loadTexts_eq_some_iff.mp hload
  refine len_getD fun sec hsec => ?_
  have hlen := loadUnit_length hu .kg
  rw [hsec, Option.getD_some] at hlen
  exact len_of_holdsText hlen (h.unit sec hsec .kg)

theorem TextFile.SlotsHold.gross_len
    (hload : loadTexts junk file = some m)
    (h : file.SlotsHold m) :
    (file.gross.getD .none).len + 1 < 2 ^ 32 := by
  obtain ⟨ms, mg, -, hg, hu⟩ := loadTexts_eq_some_iff.mp hload
  obtain ⟨hroom, -, hgross, -, -⟩ := loadUnit_mem hu
  refine len_getD fun sec hsec => ?_
  have hlen := loadGross_length hg .net
  have hfit := hroom .net
  rw [hsec, Option.getD_some] at hlen
  refine len_of_holdsText ?_ (h.gross sec hsec .net)
  rw [hgross, List.length_append, List.length_replicate, List.length_drop]
  omega

/-- Status keeps the texts whose slots are not overwritten. -/
theorem TextFile.SlotsHold.status_fits
    (hload : loadTexts junk file = some m)
    (h : file.SlotsHold m)
    {sec : TextSection Estatus}
    (hsec : file.status = some sec) :
    sec.len + 1 < 2 ^ 32 ∧ (sec.text .statusUnderload = none ∨
      sec.cut .statusUnderload = [] ∧ sec.cut .statusOverload = []) := by
  obtain ⟨ms, mg, hs, hg, hu⟩ := loadTexts_eq_some_iff.mp hload
  obtain ⟨-, hstatus, -, -, -⟩ := loadUnit_mem hu
  rw [hsec, Option.getD_some] at hs
  obtain ⟨-, -, hover, hunder⟩ := loadStatus_mem hs
  have hholds : ∀ i, Blocks.HoldsText sec.len (sec.text i) (ms.mem (.status i)) := fun i => by
    rw [← loadGross_frame hg, ← hstatus]
    exact h.status sec hsec i
  have hempty := hholds .statusUnderload
  rw [hunder] at hempty
  have hlen := len_of_holdsText (List.length_replicate) hempty
  refine ⟨hlen, ?_⟩
  cases htext : sec.text .statusUnderload with
  | none => exact Or.inl rfl
  | some t =>
      rw [← List.append_nil (List.replicate _ _), Blocks.holdsText_cleared_iff (by
        rw [slotSize_of_lt hlen]; omega)] at hempty
      have hboth := hholds .statusOverload
      rw [hover, htext, Blocks.overwrite_some_overwrite, slotSize_of_lt hlen] at hboth
      have hown : Blocks.HoldsText sec.len (some t) _ := Blocks.holdsText_overwrite_cleared
      refine Or.inr ⟨hempty, ?_⟩
      rw [TextSection.cut, ← hboth.string, hown.string, ← htext]
      exact hempty

/-- The slots of Gross are cleared as far as those of Unit reach. -/
theorem gross_holds_iff
    (hload : loadTexts junk file = some m)
    (hlen : (file.unit.getD .none).len + 1 < 2 ^ 32)
    {sec : TextSection Egross}
    (i : Egross) :
    Blocks.HoldsText sec.len (sec.text i) (m.mem (.gross i)) ↔ sec.cut i = [] := by
  obtain ⟨ms, mg, -, -, hu⟩ := loadTexts_eq_some_iff.mp hload
  obtain ⟨-, -, hgross, -, -⟩ := loadUnit_mem hu
  rw [hgross, slotSize_of_lt hlen]
  exact Blocks.holdsText_cleared_iff (Nat.succ_pos _) _

/-- The slots of Unit end where their blocks happen to contain a zero. -/
theorem unit_holds_iff
    (hload : loadTexts junk file = some m)
    {sec : TextSection Eunit}
    (hsec : file.unit = some sec)
    (hlen : sec.len + 1 < 2 ^ 32)
    (i : Eunit) :
    Blocks.HoldsText sec.len (sec.text i) (m.mem (.unit i)) ↔ sec.Ends junk i := by
  obtain ⟨ms, mg, -, -, hu⟩ := loadTexts_eq_some_iff.mp hload
  obtain ⟨-, -, -, hunit, -⟩ := loadUnit_mem hu
  rw [hunit, hsec, Option.getD_some, slotSize_of_lt hlen, Blocks.holdsText_overwrite_junk_iff]
  unfold TextSection.Ends
  cases sec.text i <;> exact Iff.rfl

theorem TextFile.SlotsHold.fits
    (hload : loadTexts junk file = some m)
    (h : file.SlotsHold m) :
    file.Fits junk := by
  have hunit := h.unit_len hload
  have hgross := h.gross_len hload
  refine ⟨fun sec hsec => h.status_fits hload hsec, fun sec hsec => ?_, ?_, fun sec hsec => ?_⟩
  · rw [hsec, Option.getD_some] at hgross
    exact ⟨hgross, fun i => (gross_holds_iff hload hunit i).mp (h.gross sec hsec i)⟩
  · obtain ⟨ms, mg, -, hg, hu⟩ := loadTexts_eq_some_iff.mp hload
    have hroom := (loadUnit_mem hu).1 .net
    rw [loadGross_length hg, slotSize_of_lt hunit, slotSize_of_lt hgross] at hroom
    omega
  · rw [hsec, Option.getD_some] at hunit
    exact ⟨hunit, fun i => (unit_holds_iff hload hsec hunit i).mp (h.unit sec hsec i)⟩

theorem TextFile.Fits.unit_len
    (h : file.Fits junk) :
    (file.unit.getD .none).len + 1 < 2 ^ 32 :=
  len_getD fun sec hsec => (h.unit sec hsec).1

theorem TextFile.Fits.gross_len
    (h : file.Fits junk) :
    (file.gross.getD .none).len + 1 < 2 ^ 32 :=
  len_getD fun sec hsec => (h.gross sec hsec).1

/-- A file that fits leaves no block. -/
theorem TextFile.Fits.loads
    (h : file.Fits junk) :
    ∃ m, loadTexts junk file = some m := by
  have hstatus : (file.status.getD .none).len + 1 < 2 ^ 32 :=
    len_getD fun sec hsec => (h.status sec hsec).1
  obtain ⟨ms, hs⟩ := Option.isSome_iff_exists.mp
    (loadStatus_isSome junk noSlots hstatus)
  obtain ⟨mg, hg⟩ := Option.isSome_iff_exists.mp
    (loadGross_isSome junk ms h.gross_len)
  have hroom : ∀ i, (file.unit.getD .none).len + 1 ≤ (mg.mem (.gross i)).length := by
    intro i
    rw [loadGross_length hg, slotSize_of_lt h.gross_len]
    exact Nat.succ_le_succ h.room
  obtain ⟨m, hu⟩ := Option.isSome_iff_exists.mp
    (loadUnit_isSome junk h.unit_len hroom)
  exact ⟨m, loadTexts_eq_some_iff.mpr ⟨ms, mg, hs, hg, hu⟩⟩

/-- The slots of Status behind all the blocks. -/
theorem TextFile.Fits.status_holds
    (hload : loadTexts junk file = some m)
    (h : file.Fits junk)
    {sec : TextSection Estatus}
    (hsec : file.status = some sec)
    (i : Estatus) :
    Blocks.HoldsText sec.len (sec.text i) (m.mem (.status i)) := by
  obtain ⟨ms, mg, hs, hg, hu⟩ := loadTexts_eq_some_iff.mp hload
  obtain ⟨-, hstatus, -, -, -⟩ := loadUnit_mem hu
  obtain ⟨hlen, hunder⟩ := h.status sec hsec
  rw [hsec, Option.getD_some] at hs
  obtain ⟨h₀, h₁, h₂, h₃⟩ := loadStatus_mem hs
  rw [slotSize_of_lt hlen] at h₀ h₁ h₂ h₃
  rw [hstatus, loadGross_frame hg]
  cases i with
  | statusStable => rw [h₀]; exact Blocks.holdsText_overwrite_cleared
  | statusUnstable => rw [h₁]; exact Blocks.holdsText_overwrite_cleared
  | statusOverload =>
      rw [h₂]
      cases htext : sec.text .statusUnderload with
      | none => exact Blocks.holdsText_overwrite_cleared
      | some t =>
          -- the text of UnderLoad stands in the slot, and both are empty
          rw [htext] at hunder
          obtain ⟨hfirst, hsecond⟩ := hunder.resolve_left (by simp)
          rw [Blocks.overwrite_some_overwrite]
          have hown : Blocks.HoldsText sec.len (some t) _ := Blocks.holdsText_overwrite_cleared
          refine ⟨hown.terminated, ?_⟩
          rw [hown.string, ← htext]
          exact hfirst.trans hsecond.symm
  | statusUnderload =>
      rw [h₃, ← List.append_nil (List.replicate _ _),
        Blocks.holdsText_cleared_iff (Nat.succ_pos _)]
      rcases hunder with hnone | ⟨hfirst, -⟩
      · rw [hnone]
        simp [stringAt]
      · exact hfirst

/-- The exact condition for the slots. -/
theorem slots_hold_iff
    (file : TextFile)
    (junk : Slot → Nat → UInt8) :
    (∃ m, loadTexts junk file = some m ∧ file.SlotsHold m) ↔ file.Fits junk := by
  constructor
  · rintro ⟨m, hload, hholds⟩
    exact hholds.fits hload
  · intro h
    obtain ⟨m, hload⟩ := h.loads
    refine ⟨m, hload, ?_, ?_, ?_⟩
    · exact fun sec hsec i => h.status_holds hload hsec i
    · exact fun sec hsec i => (gross_holds_iff hload h.unit_len i).mpr ((h.gross sec hsec).2 i)
    · intro sec hsec i
      obtain ⟨hlen, hends⟩ := h.unit sec hsec
      exact (unit_holds_iff hload hsec hlen i).mpr (hends i)

/-- Unit always writes to the slots of Gross. -/
theorem unit_writes_gross
    (hload : loadTexts junk file = some m)
    (h : file.SlotsHold m) :
    ¬ m.KeepOwn Slot.owner := by
  intro hown
  obtain ⟨ms, mg, -, -, hu⟩ := loadTexts_eq_some_iff.mp hload
  obtain ⟨-, -, -, -, hwrite⟩ := loadUnit_mem hu
  have hsize : 0 < slotSize (file.unit.getD .none).len := by
    rw [slotSize_of_lt (h.unit_len hload)]
    exact Nat.succ_pos _
  exact nomatch hown _ hwrite hsize

/-- **The texts of the sections.**  No file is loaded with every section writing to its own
slots; and the slots hold their texts exactly for the files that fit. -/
theorem config_slots
    (file : TextFile)
    (junk : Slot → Nat → UInt8) :
    ¬ file.LoadsTexts junk ∧
      ((∃ m, loadTexts junk file = some m ∧ file.SlotsHold m) ↔ file.Fits junk) := by
  refine ⟨?_, slots_hold_iff file junk⟩
  rintro ⟨m, hload, hholds, hown⟩
  exact unit_writes_gross hload hholds hown

/-- The sections of the file `scaled.conf`, with a text for UnderLoad. -/
def scaledConf : TextFile where
  status := some ⟨2, fun
    | .statusStable => some [0x53, 0x54]
    | .statusUnstable => some [0x55, 0x53]
    | .statusOverload => some [0x4f, 0x4c]
    | .statusUnderload => some [0x55, 0x4c]⟩
  gross := some ⟨5, fun
    | .net => some [0x4e, 0x54]
    | .gross => some [0x47, 0x53]⟩
  unit := some ⟨2, fun
    | .kg => some [0x6b, 0x67]
    | .g => some [0x20, 0x67]⟩

/-- The texts of the slots of OverLoad, UnderLoad, Net and Gross. -/
def slotTexts (m : SlotMemory) : List (List UInt8) :=
  [.status .statusOverload, .status .statusUnderload, .gross .net, .gross .gross].map
    fun slot => stringAt (m.mem slot)

/-- The slot of OverLoad holds the text of UnderLoad, and those of UnderLoad, Net and Gross are
empty. -/
theorem scaled_conf_loses_texts :
    (loadTexts (fun _ _ => 0) scaledConf).map slotTexts = some [[0x55, 0x4c], [], [], []] ∧
      ¬ scaledConf.LoadsTexts fun _ _ => 0 := by
  have hload : (loadTexts (fun _ _ => 0) scaledConf).map slotTexts =
      some [[0x55, 0x4c], [], [], []] := by
    decide +kernel
  refine ⟨hload, ?_⟩
  rintro ⟨m, hm, hholds, -⟩
  rw [hm, Option.map_some, slotTexts, Option.some.injEq, List.map_cons, List.cons.injEq] at hload
  have hstring := (hholds.status _ rfl .statusOverload).string
  rw [hload.1] at hstring
  exact absurd hstring (by decide)

end Files

end Scaled
end MatrixBin
