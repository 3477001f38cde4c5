import MatrixBin.Library.ByteBuffer
import MatrixBin.Libpack.PackUnpack

/-!
# The error packet (`pack_error` and `unpack_error` in `devdrvd_communication.c`)

The pattern of the error packet ends with `%c`, as those of its siblings do, but
`pack_error` passes no stop character: what is printed there is whatever byte happens to
lie in the place of the missing argument, the parameter `missing` below.  The length is
then counted up by one, so that the copy ends with the terminating zero of the string.
`unpack_error` reads the two numbers and leaves the message as it is.
-/

namespace MatrixBin
namespace Libpack

open Library

/-- `struct error_struct`; the message is a string without its terminator. -/
structure ErrorStruct where
  timestamp : UInt32
  code : UInt8
  message : List UInt8
  terminated : 0 ∉ message

/-- `error_package_pattern` without its first and its last character. -/
def errorBody (error : ErrorStruct) : List UInt8 :=
  [0x45, 0x52] ++ separator :: (printNat error.timestamp.toNat ++
    separator :: (printNat error.code.toNat ++ separator :: error.message))

/-- What `sprintf` prints. -/
def errorText (missing : UInt8) (error : ErrorStruct) : List UInt8 :=
  startCharacter :: (errorBody error ++ [missing])

/-- `pack_error`: the bytes and the size that is returned. -/
def packError (missing : UInt8) (error : ErrorStruct) : Option (List UInt8 × Nat) :=
  (sprintfBuffer (errorText missing error)).map fun text =>
    (strncpyBytes (text.length + 1) (text ++ [0]), text.length + 1)

/-- `unpack_error` -/
def unpackError (error : ErrorStruct) (data : List UInt8) : Option ErrorStruct := do
  let start ← strstrSeparator data
  let (timestamp, start) ← nextUlong start
  let (code, _) ← nextUlong start
  return { error with timestamp := UInt32.ofNat timestamp, code := UInt8.ofNat code }

/-- A record is packed into one frame, with the size of the frame, that `parse_buffer`
returns as one packet and that `unpack_error` takes apart into the record, whatever the
target held. -/
def ErrorRoundTrips (missing : UInt8) (error : ErrorStruct) : Prop :=
  ∃ data size, packError missing error = some (data, size) ∧
    IsFrame startCharacter stopCharacter data ∧ size = data.length ∧
    (∀ st : ParserState, st.Idle →
      ∃ st', parseBuffer st data = some (st', [PcktItem.ofFrame data])) ∧
    ∀ target, unpackError target data = some error

section ErrorPacket

variable {missing : UInt8} {error : ErrorStruct}

/-! ### The bytes that are packed -/

/-- A control character is in the text only if it is in the message. -/
theorem not_mem_errorBody
    {c : UInt8}
    (hc : c.toNat < 0x20)
    (hmessage : c ∉ error.message) :
    c ∉ errorBody error := by
  have hprinted (n : Nat) : c ∉ printNat n := fun hmem =>
    absurd (printable_printNat hmem) (by omega)
  have hne (d : UInt8) (hd : 0x20 ≤ d.toNat) : c ≠ d := by
    rintro rfl
    omega
  simp only [errorBody, List.mem_append, List.mem_cons, List.not_mem_nil, or_false, not_or]
  exact ⟨⟨hne _ (by decide), hne _ (by decide)⟩, hne _ (by decide), hprinted _,
    hne _ (by decide), hprinted _, hne _ (by decide), hmessage⟩

/-- The terminator is copied too, whatever stands before it. -/
theorem strncpyBytes_text
    {s : List UInt8}
    (hs : 0 ∉ s)
    (c : UInt8) :
    strncpyBytes (s.length + 2) (s ++ [c] ++ [0]) = s ++ [c, 0] := by
  have hrest (t : List UInt8) : stringAt (s ++ [c] ++ t) = s ++ stringAt (c :: t) := by
    rw [List.append_assoc, stringAt_append_of_not_mem hs]
    rfl
  rw [strncpyBytes, hrest]
  by_cases hc : c = 0
  · simp [hc, stringAt, List.replicate_succ]
  · simp [hc, stringAt, List.take_of_length_le, List.replicate_succ]

/-- What `pack_error` delivers: the text and a zero. -/
theorem packError_eq
    (hfits : (errorBody error).length ≤ 253) :
    packError missing error =
      some (errorText missing error ++ [0], (errorText missing error).length + 1) := by
  have hzero : 0 ∉ startCharacter :: errorBody error := by
    rw [List.mem_cons, not_or]
    exact ⟨by decide, not_mem_errorBody (by decide) error.terminated⟩
  have hlen :
      (errorText missing error).length = (startCharacter :: errorBody error).length + 1 := by
    simp [errorText]
  have hcopy := strncpyBytes_text hzero missing
  have htext : errorText missing error = startCharacter :: errorBody error ++ [missing] := rfl
  rw [packError, sprintfBuffer, if_pos (by
    rw [hlen, packBufferSize, List.length_cons]
    omega), Option.map_some, hlen, htext]
  simp only [hcopy]
  simp

/-- A longer text does not fit the local buffer. -/
theorem packError_eq_none
    (hlong : 253 < (errorBody error).length) :
    packError missing error = none := by
  rw [packError, sprintfBuffer, if_neg, Option.map_none]
  simp only [errorText, packBufferSize, List.length_cons, List.length_append, List.length_nil]
  omega

theorem packError_some
    {r : List UInt8 × Nat}
    (hpack : packError missing error = some r) :
    (errorBody error).length ≤ 253 ∧
      r = (errorText missing error ++ [0], (errorText missing error).length + 1) := by
  by_cases hfits : (errorBody error).length ≤ 253
  · rw [packError_eq hfits, Option.some.injEq] at hpack
    exact ⟨hfits, hpack.symm⟩
  · rw [packError_eq_none (by omega)] at hpack
    exact absurd hpack (by simp)

/-- The packed bytes end with a zero: they are no frame. -/
theorem packError_not_frame
    {data : List UInt8}
    {size : Nat}
    (hpack : packError missing error = some (data, size)) :
    ¬ IsFrame startCharacter stopCharacter data := by
  rintro ⟨body, hbody, -, -⟩
  obtain ⟨-, hr⟩ := packError_some hpack
  rw [Prod.mk.injEq] at hr
  have hlast : data.getLast? = some 0 := by
    rw [hr.1]
    simp
  rw [hbody] at hlast
  simp [stopCharacter, List.getLast?_cons] at hlast

/-! ### What becomes of the packet -/

/-- The two numbers come back; the message is that of the target. -/
theorem unpackError_packError
    {data : List UInt8}
    {size : Nat}
    (hpack : packError missing error = some (data, size))
    (target : ErrorStruct) :
    unpackError target data =
      some { target with timestamp := error.timestamp, code := error.code } := by
  obtain ⟨-, hr⟩ := packError_some hpack
  rw [Prod.mk.injEq] at hr
  obtain ⟨rfl, -⟩ := hr
  have hstart : strstrSeparator (errorText missing error ++ [0]) =
      some (separator :: (printNat error.timestamp.toNat ++
        separator :: (printNat error.code.toNat ++
          separator :: (error.message ++ [missing, 0])))) := by
    simp [errorText, errorBody, strstrSeparator, separator, startCharacter]
  have hts : error.timestamp.toNat < 2 ^ 32 := error.timestamp.toNat_lt
  have hcode : error.code.toNat < 2 ^ 32 := by
    have := error.code.toNat_lt
    omega
  rw [unpackError, hstart]
  simp only [Option.bind_eq_bind, Option.bind_some,
    nextUlong_printNat (show isDigit separator = false by decide) hts,
    nextUlong_printNat (show isDigit separator = false by decide) hcode]
  simp

/-- What the deframer makes of the packet of a message without delimiters.  If the byte in
the place of the missing argument happens to be the stop character, the frame is returned
and the zero behind it is counted into the next packet; otherwise nothing is returned, and
the frame stays open. -/
theorem parseBuffer_packError
    {data : List UInt8}
    {size : Nat}
    (hpack : packError missing error = some (data, size))
    (hstart : startCharacter ∉ error.message)
    (hstop : stopCharacter ∉ error.message)
    {st : ParserState}
    (hidle : st.Idle) :
    (missing = stopCharacter →
      ∃ st', parseBuffer st data =
          some (st', [PcktItem.ofFrame (packText (errorBody error))]) ∧
        st'.Outside ∧ st'.pcktCurLen = 1) ∧
    (missing ≠ startCharacter → missing ≠ stopCharacter →
      ∃ st', parseBuffer st data = some (st', []) ∧ st'.Open data) := by
  obtain ⟨hfits, hr⟩ := packError_some hpack
  rw [Prod.mk.injEq] at hr
  obtain ⟨rfl, -⟩ := hr
  have hbody : startCharacter ∉ errorBody error ∧ stopCharacter ∉ errorBody error :=
    ⟨not_mem_errorBody (by decide) hstart, not_mem_errorBody (by decide) hstop⟩
  constructor
  · rintro rfl
    have hframe : IsFrame startCharacter stopCharacter (packText (errorBody error)) :=
      ⟨errorBody error, rfl, hbody⟩
    obtain ⟨st₁, hrun, hidle₁⟩ := parseBuffer_frame hidle hframe (by
      simp only [packText, recbufSize, List.length_cons, List.length_append, List.length_nil]
      omega)
    obtain ⟨st₂, hzero, hout, hlen⟩ := parseByte_outside ⟨hidle₁.term_eq, hidle₁.pos_eq⟩
      (show (0 : UInt8) ≠ startCharacter by decide) (show (0 : UInt8) ≠ stopCharacter by decide)
    refine ⟨st₂, ?_, hout, by rw [hlen, hidle₁.len_eq]⟩
    have htext : errorText stopCharacter error = packText (errorBody error) := rfl
    rw [htext, parseBuffer_append, hrun]
    simp [parseBuffer, hzero]
  · intro hne hne'
    obtain ⟨st₁, hstep, hopen⟩ := parseByte_start_idle hidle
    have hrest : startCharacter ∉ errorBody error ++ [missing, 0] ∧
        stopCharacter ∉ errorBody error ++ [missing, 0] := by
      simp only [List.mem_append, List.mem_cons, List.not_mem_nil, or_false, not_or]
      exact ⟨⟨hbody.1, Ne.symm hne, by decide⟩, ⟨hbody.2, Ne.symm hne', by decide⟩⟩
    obtain ⟨st₂, hrun, hopen'⟩ := parseBuffer_body hopen hrest.1 hrest.2 (by
      simp only [recbufSize, List.length_cons, List.length_append, List.length_nil]
      omega)
    have hdata : errorText missing error ++ [0] =
        startCharacter :: (errorBody error ++ [missing, 0]) := by
      simp [errorText]
    refine ⟨st₂, ?_, ?_⟩
    · rw [hdata, parseBuffer, hstep, Option.bind_some, hrun]
      rfl
    · rw [hdata]
      exact hopen'

/-! ### The round trip -/

/-- **The error packet.**  No record makes the round trip, whatever byte stands in the
place of the missing argument. -/
theorem error_never_round_trips
    (missing : UInt8)
    (error : ErrorStruct) :
    ¬ ErrorRoundTrips missing error := by
  rintro ⟨data, size, hpack, hframe, -⟩
  exact packError_not_frame hpack hframe

/-- An overload message, with the stop character by chance in the right place. -/
theorem overload_not_round_trips :
    ¬ ErrorRoundTrips stopCharacter
      ⟨1700000000, 4, [0x6f, 0x76, 0x65, 0x72, 0x6c, 0x6f, 0x61, 0x64], by decide⟩ := by
  rintro ⟨data, size, hpack, hframe, -⟩
  exact packError_not_frame hpack hframe

end ErrorPacket

end Libpack
end MatrixBin
