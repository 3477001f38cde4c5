import MatrixBin.Library.DecimalText
import MatrixBin.Library.FloatValue

/-!
# JSON documents as the cJSON lookups see them

A document is a tree; a lookup in a value that is no object finds nothing, and the names
of the members are compared without regard to the case of ASCII letters.  Texts are the
bytes of C strings.  Numbers are floating-point values; `getNumberValue` of a value that is no
number is a NaN.
-/

namespace MatrixBin
namespace Library

inductive Json
  | null
  | bool (value : Bool)
  | number (value : FloatValue)
  | string (text : List UInt8)
  | array (items : List Json)
  | object (members : List (List UInt8 × Json))

/-- The bytes of a text. -/
def utf8 (s : String) : List UInt8 := s.toUTF8.toList

theorem byteArray_toList_loop
    (bs : ByteArray)
    (i : Nat)
    (r : List UInt8) :
    ByteArray.toList.loop bs i r = r.reverse ++ bs.data.toList.drop i := by
  induction i, r using ByteArray.toList.loop.induct bs with
  | case1 i r hi ih =>
      have hlen : i < bs.data.toList.length := by simpa using hi
      have hget : bs.get! i = bs.data.toList[i] := by
        simp only [ByteArray.get!]
        exact getElem!_pos bs.data i hi
      rw [ByteArray.toList.loop, if_pos hi, ih, List.reverse_cons, List.append_assoc,
        List.drop_eq_getElem_cons hlen, hget]
      rfl
  | case2 i r hi =>
      rw [ByteArray.toList.loop, if_neg hi, List.drop_eq_nil_of_le (by simpa using hi),
        List.append_nil]

/-- A text is determined by its bytes. -/
theorem utf8_injective
    {s t : String}
    (h : utf8 s = utf8 t) :
    s = t := by
  have hlist : ∀ u : String, utf8 u = u.toUTF8.data.toList := fun u =>
    (byteArray_toList_loop u.toUTF8 0 []).trans (by simp)
  rw [hlist, hlist] at h
  exact String.toByteArray_inj.mp (ByteArray.ext (Array.toList_inj.mp h))

/-- `tolower` of the C locale. -/
def lowerByte (b : UInt8) : UInt8 := if 0x41 ≤ b ∧ b ≤ 0x5a then b + 0x20 else b

namespace Json

/-- `cJSON_GetObjectItem` -/
def getObjectItem (json : Json) (name : String) : Option Json :=
  match json with
  | .object members =>
      (members.find? fun m => m.1.map lowerByte = (utf8 name).map lowerByte).map Prod.snd
  | _ => none

/-- `cJSON_GetStringValue` -/
def getStringValue : Json → Option (List UInt8)
  | .string text => some text
  | _ => none

/-- `cJSON_GetNumberValue` -/
def getNumberValue : Json → FloatValue
  | .number value => value
  | _ => .nan

/-- `cJSON_IsObject` -/
def isObject : Json → Bool
  | .object _ => true
  | _ => false

/-- `cJSON_IsArray`, with the items. -/
def getArray : Json → Option (List Json)
  | .array items => some items
  | _ => none

/-! ### Shapes -/

/-- There is a member of the name. -/
def has (json : Json) (name : String) : Bool := (json.getObjectItem name).isSome

/-- There is a member of the name and it is a text. -/
def hasString (json : Json) (name : String) : Bool :=
  ((json.getObjectItem name).bind getStringValue).isSome

/-- There is a member of the name, an object, and `p` holds of it. -/
def within (json : Json) (name : String) (p : Json → Bool) : Bool :=
  match json.getObjectItem name with
  | some item => item.isObject && p item
  | none => false

/-- There is a member of the name, an array, and `p` holds of its list of items. -/
def listed (json : Json) (name : String) (p : List Json → Bool) : Bool :=
  match (json.getObjectItem name).bind getArray with
  | some items => p items
  | none => false

/-! ### Texts -/

def ofText (s : String) : Json := .string (utf8 s)

def ofMembers (members : List (String × Json)) : Json :=
  .object (members.map fun m => (utf8 m.1, m.2))

mutual

/-- The text of a document whose texts need no escapes and whose numbers are integers. -/
def print : Json → List UInt8
  | .null => utf8 "null"
  | .bool value => utf8 (if value then "true" else "false")
  | .number (.finite value) => (if value < 0 then utf8 "-" else []) ++ printNat value.num.natAbs
  | .number _ => utf8 "null"
  | .string text => [0x22] ++ text ++ [0x22]
  | .array items => [0x5b] ++ printItems items ++ [0x5d]
  | .object members => [0x7b] ++ printMembers members ++ [0x7d]

def printItems : List Json → List UInt8
  | [] => []
  | [item] => item.print
  | item :: rest => item.print ++ [0x2c] ++ printItems rest

def printMembers : List (List UInt8 × Json) → List UInt8
  | [] => []
  | [m] => printMember m
  | m :: rest => printMember m ++ [0x2c] ++ printMembers rest

def printMember : List UInt8 × Json → List UInt8
  | (name, item) => [0x22] ++ name ++ [0x22, 0x3a] ++ item.print

end

end Json

end Library
end MatrixBin
