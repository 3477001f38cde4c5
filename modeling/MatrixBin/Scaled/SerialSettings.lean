import MatrixBin.Library.TableLookup

/-!
# The serial settings (`config.c` and librs232)

`conf_serial` turns the texts of a section `serial` into the numbers of librs232: one table of
texts for each setting, searched by one loop.  The loops run to `sizeof` of the table, which
counts bytes, and compare up to the end of the entry.  librs232 names the numbers again, from
tables of the same texts.

`rs232_settings_iff` says for which strings each of the searches is right.
-/

namespace MatrixBin
namespace Scaled

open Library

/-- `sizeof(const char *)` -/
inductive PointerSize
  | four
  | eight
deriving DecidableEq

def PointerSize.bytes : PointerSize → Nat
  | four => 4
  | eight => 8

theorem PointerSize.one_lt_bytes (ptr : PointerSize) : 1 < ptr.bytes := by
  cases ptr <;> decide

/-- A string: the bytes in front of its terminator. -/
abbrev CText := {s : List UInt8 // 0 ∉ s}

/-- The texts of a setting. -/
structure SettingTable where
  texts : List (List UInt8)
  texts_ne : texts ≠ [] := by simp
  no_nul : ∀ text ∈ texts, 0 ∉ text := by decide +kernel
  prefixFree : PrefixFree texts := by decide +kernel

def rs232Baud : SettingTable where
  texts := ["300", "2400", "4800", "9600", "19200", "38400", "57600", "115200", "460800"].map
    fun s => s.toUTF8.toList

def rs232Data : SettingTable where
  texts := ["5", "6", "7", "8"].map fun s => s.toUTF8.toList

def rs232Parity : SettingTable where
  texts := ["none", "odd", "even"].map fun s => s.toUTF8.toList

def rs232Stop : SettingTable where
  texts := ["1", "2"].map fun s => s.toUTF8.toList

def rs232Flow : SettingTable where
  texts := ["off", "hardware", "xon/xoff"].map fun s => s.toUTF8.toList

/-! The last enumerators of librs232 -/

def rs232BaudMax : Nat := 9

def rs232DataMax : Nat := 4

def rs232ParityMax : Nat := 3

def rs232StopMax : Nat := 2

def rs232FlowMax : Nat := 3

/-- The enumerations have a value for each entry. -/
theorem length_texts_eq_max :
    rs232Baud.texts.length = rs232BaudMax ∧
    rs232Data.texts.length = rs232DataMax ∧
    rs232Stop.texts.length = rs232StopMax ∧
    rs232Flow.texts.length = rs232FlowMax ∧
    rs232Parity.texts.length = rs232ParityMax := by
  exact ⟨rfl, rfl, rfl, rfl, rfl⟩

/-- The loop that the five functions share: `none` is a read behind the table. -/
def rs232Lookup (ptr : PointerSize) (table : SettingTable) (s : CText) : Option Nat :=
  scanTable (fun entry => strncmp entry.length entry s.1 = 0) table.texts
    (ptr.bytes * table.texts.length)

def rs232ToBaud (ptr : PointerSize) (baud : CText) : Option Nat := rs232Lookup ptr rs232Baud baud

def rs232ToData (ptr : PointerSize) (data : CText) : Option Nat := rs232Lookup ptr rs232Data data

def rs232ToParity (ptr : PointerSize) (parity : CText) : Option Nat :=
  rs232Lookup ptr rs232Parity parity

def rs232ToStopbits (ptr : PointerSize) (stop : CText) : Option Nat :=
  rs232Lookup ptr rs232Stop stop

def rs232ToFlow (ptr : PointerSize) (flow : CText) : Option Nat := rs232Lookup ptr rs232Flow flow

section Lookup

variable (ptr : PointerSize) (table : SettingTable) (s : CText)

/-- The bound lies behind the table. -/
theorem SettingTable.length_lt_bound :
    table.texts.length < ptr.bytes * table.texts.length := by
  have hpos : 0 < table.texts.length := List.length_pos_of_ne_nil table.texts_ne
  exact (Nat.lt_mul_iff_one_lt_left hpos).mpr ptr.one_lt_bytes

/-- An entry matches the strings that begin with it. -/
theorem SettingTable.matches_iff :
    ∀ entry ∈ table.texts,
      decide (strncmp entry.length entry s.1 = 0) = true ↔ entry <+: s.1 := by
  intro entry hentry
  rw [decide_eq_true_iff, strncmp_eq_zero_iff (table.no_nul entry hentry)]

theorem rs232Lookup_lookedUp_iff (max : Nat) :
    LookedUp table.texts max s.1 (rs232Lookup ptr table s) ↔ s.1 ∈ table.texts :=
  lookedUp_iff table.prefixFree (table.matches_iff s) (table.length_lt_bound ptr) max

/-- The loop reads behind the table for every string that no entry begins. -/
theorem rs232Lookup_outside_iff :
    rs232Lookup ptr table s = none ↔ ∀ entry ∈ table.texts, ¬ entry <+: s.1 := by
  rw [rs232Lookup, scanTable_eq_none_iff (table.length_lt_bound ptr)]
  refine forall₂_congr fun entry hentry => ?_
  rw [← Bool.not_eq_true, table.matches_iff s entry hentry]

end Lookup

/-- **The strings for which the settings are read as librs232 has them.**  Each of the five
functions is right exactly for the entries of its table: a string that extends an entry is taken
for it, and any other one makes the function read behind the table. -/
theorem rs232_settings_iff (ptr : PointerSize) (s : CText) :
    (LookedUp rs232Baud.texts rs232BaudMax s.1 (rs232ToBaud ptr s) ↔
      s.1 ∈ rs232Baud.texts) ∧
    (LookedUp rs232Data.texts rs232DataMax s.1 (rs232ToData ptr s) ↔
      s.1 ∈ rs232Data.texts) ∧
    (LookedUp rs232Parity.texts rs232ParityMax s.1 (rs232ToParity ptr s) ↔
      s.1 ∈ rs232Parity.texts) ∧
    (LookedUp rs232Stop.texts rs232StopMax s.1 (rs232ToStopbits ptr s) ↔
      s.1 ∈ rs232Stop.texts) ∧
    (LookedUp rs232Flow.texts rs232FlowMax s.1 (rs232ToFlow ptr s) ↔
      s.1 ∈ rs232Flow.texts) := by
  refine ⟨?_, ?_, ?_, ?_, ?_⟩
  · exact rs232Lookup_lookedUp_iff ptr rs232Baud s rs232BaudMax
  · exact rs232Lookup_lookedUp_iff ptr rs232Data s rs232DataMax
  · exact rs232Lookup_lookedUp_iff ptr rs232Parity s rs232ParityMax
  · exact rs232Lookup_lookedUp_iff ptr rs232Stop s rs232StopMax
  · exact rs232Lookup_lookedUp_iff ptr rs232Flow s rs232FlowMax

/-- A rate that the table does not have, and one that begins like an entry. -/
theorem rs232ToBaud_unrecognised :
    ¬ LookedUp rs232Baud.texts rs232BaudMax "1200".toUTF8.toList
        (rs232ToBaud .eight ⟨"1200".toUTF8.toList, by decide +kernel⟩) ∧
    ¬ LookedUp rs232Baud.texts rs232BaudMax "1152000".toUTF8.toList
        (rs232ToBaud .eight ⟨"1152000".toUTF8.toList, by decide +kernel⟩) := by
  constructor
  · have hread : rs232ToBaud .eight ⟨"1200".toUTF8.toList, by decide +kernel⟩ = none := by
      decide +kernel
    exact fun h => h.inside hread
  · have hfound : rs232ToBaud .eight ⟨"1152000".toUTF8.toList, by decide +kernel⟩ = some 7 := by
      decide +kernel
    intro h
    have hentry := (h.entry 7 (by decide +kernel)).mp hfound
    have hother : rs232Baud.texts[7]? ≠ some "1152000".toUTF8.toList := by decide +kernel
    exact hother hentry

/-! ### The port of a section -/

/-- The settings of a section `serial`, as `cfg_getstr` gives them: `none` for one that the
section leaves out. -/
structure SerialTexts where
  baud : Option CText
  data : Option CText
  stop : Option CText
  flow : Option CText
  parity : Option CText

/-- The settings of `struct rs232_port_t`. -/
structure Rs232Settings where
  baud : Nat
  data : Nat
  stop : Nat
  flow : Nat
  parity : Nat
deriving DecidableEq

/-- `conf_serial` behind the device: `strncmp` reads the text even where it is `NULL`. -/
def confSerial (ptr : PointerSize) (sec : SerialTexts) : Option Rs232Settings := do
  let baud ← sec.baud.bind (rs232ToBaud ptr)
  let data ← sec.data.bind (rs232ToData ptr)
  let stop ← sec.stop.bind (rs232ToStopbits ptr)
  let flow ← sec.flow.bind (rs232ToFlow ptr)
  let parity ← sec.parity.bind (rs232ToParity ptr)
  return { baud, data, stop, flow, parity }

/-- The names of librs232: `NULL` from the last enumerator on, which is `some none` here. -/
def rs232Str (table : SettingTable) (max value : Nat) : Option (Option (List UInt8)) :=
  if max ≤ value then some none else table.texts[value]?.map some

def rs232Strbaud (baud : Nat) := rs232Str rs232Baud rs232BaudMax baud

def rs232Strdata (data : Nat) := rs232Str rs232Data rs232DataMax data

def rs232Strparity (parity : Nat) := rs232Str rs232Parity rs232ParityMax parity

def rs232Strstop (stop : Nat) := rs232Str rs232Stop rs232StopMax stop

def rs232Strflow (flow : Nat) := rs232Str rs232Flow rs232FlowMax flow

/-- librs232 names the settings of the port as the section has them. -/
structure Rs232Settings.Named (p : Rs232Settings) (sec : SerialTexts) : Prop where
  baud : rs232Strbaud p.baud = some (sec.baud.map Subtype.val)
  data : rs232Strdata p.data = some (sec.data.map Subtype.val)
  stop : rs232Strstop p.stop = some (sec.stop.map Subtype.val)
  flow : rs232Strflow p.flow = some (sec.flow.map Subtype.val)
  parity : rs232Strparity p.parity = some (sec.parity.map Subtype.val)

theorem confSerial_eq_some_iff
    {ptr : PointerSize}
    {sec : SerialTexts}
    {p : Rs232Settings} :
    confSerial ptr sec = some p ↔
      sec.baud.bind (rs232ToBaud ptr) = some p.baud ∧
      sec.data.bind (rs232ToData ptr) = some p.data ∧
      sec.stop.bind (rs232ToStopbits ptr) = some p.stop ∧
      sec.flow.bind (rs232ToFlow ptr) = some p.flow ∧
      sec.parity.bind (rs232ToParity ptr) = some p.parity := by
  obtain ⟨baud, data, stop, flow, parity⟩ := p
  simp [confSerial, Option.bind_eq_some_iff]

section Names

variable {table : SettingTable} {max : Nat}

theorem rs232Str_eq_some_iff
    (hmax : table.texts.length = max)
    (value : Nat)
    (text : List UInt8) :
    rs232Str table max value = some (some text) ↔ table.texts[value]? = some text := by
  rw [rs232Str]
  split_ifs with hout
  · rw [List.getElem?_eq_none (by omega)]
    simp
  · simp

/-- One setting is found, and named by its own text, exactly if that is an entry. -/
theorem setting_named_iff
    (hmax : table.texts.length = max)
    (ptr : PointerSize)
    (text : Option CText) :
    (∃ value, text.bind (rs232Lookup ptr table) = some value ∧
      rs232Str table max value = some (text.map Subtype.val)) ↔
      ∃ s ∈ text, s.1 ∈ table.texts := by
  cases text with
  | none => simp
  | some s =>
      constructor
      · rintro ⟨value, -, hname⟩
        exact ⟨s, rfl, List.mem_of_getElem? ((rs232Str_eq_some_iff hmax value s.1).mp hname)⟩
      · rintro ⟨s', hmem, hs⟩
        obtain rfl := Option.mem_some_iff.mp hmem
        have hright := (rs232Lookup_lookedUp_iff ptr table _ max).mpr hs
        obtain ⟨value, hvalue, hentry⟩ := List.getElem_of_mem hs
        have hget := (List.getElem?_eq_some_iff).mpr ⟨hvalue, hentry⟩
        exact ⟨value, (hright.entry value hvalue).mpr hget,
          (rs232Str_eq_some_iff hmax value _).mpr hget⟩

end Names

/-- **A section gives a port that is named as the section has it, exactly if all its settings
are entries.**  A setting that is left out or unknown makes `conf_serial` read outside; one that
extends an entry is named by the entry. -/
theorem confSerial_named_iff (ptr : PointerSize) (sec : SerialTexts) :
    (∃ p, confSerial ptr sec = some p ∧ p.Named sec) ↔
      (∃ s ∈ sec.baud, s.1 ∈ rs232Baud.texts) ∧
      (∃ s ∈ sec.data, s.1 ∈ rs232Data.texts) ∧
      (∃ s ∈ sec.stop, s.1 ∈ rs232Stop.texts) ∧
      (∃ s ∈ sec.flow, s.1 ∈ rs232Flow.texts) ∧
      ∃ s ∈ sec.parity, s.1 ∈ rs232Parity.texts := by
  obtain ⟨hmaxBaud, hmaxData, hmaxStop, hmaxFlow, hmaxParity⟩ := length_texts_eq_max
  rw [← setting_named_iff hmaxBaud ptr, ← setting_named_iff hmaxData ptr,
    ← setting_named_iff hmaxStop ptr, ← setting_named_iff hmaxFlow ptr,
    ← setting_named_iff hmaxParity ptr]
  constructor
  · rintro ⟨p, hp, hnamed⟩
    obtain ⟨hbaud, hdata, hstop, hflow, hparity⟩ := confSerial_eq_some_iff.mp hp
    exact ⟨⟨_, hbaud, hnamed.baud⟩, ⟨_, hdata, hnamed.data⟩, ⟨_, hstop, hnamed.stop⟩,
      ⟨_, hflow, hnamed.flow⟩, ⟨_, hparity, hnamed.parity⟩⟩
  · rintro ⟨⟨baud, hbaud, hnbaud⟩, ⟨data, hdata, hndata⟩, ⟨stop, hstop, hnstop⟩,
      ⟨flow, hflow, hnflow⟩, ⟨parity, hparity, hnparity⟩⟩
    exact ⟨⟨baud, data, stop, flow, parity⟩,
      confSerial_eq_some_iff.mpr ⟨hbaud, hdata, hstop, hflow, hparity⟩,
      ⟨hnbaud, hndata, hnstop, hnflow, hnparity⟩⟩

end Scaled
end MatrixBin
