import MatrixBin.Scaled.CalibrationNumber

/-!
# Starting an LDU (`init_ldu` in `ldu_util.c`)

`init_ldu` stops the flow with `ID`, until something that begins with a `D` is answered, asks
for the calibration number with `CE` and sets zero with `SZ`; `get_resp` waits for each of the
replies.  The buffer is a new one at the call (`ldu_loop.c`, `ldu_raw.c`).

An execution takes one step of `get_resp` at a time, under whatever `pselect`, FIONREAD and
`read` answer.  It is a `fault` once it leaves `spc`, tests the pointer of `get_resp` before it
has a value, or hands NULL to `atoi`.
-/

namespace MatrixBin
namespace Scaled

open Library

/-- What `init_ldu` waits for.  Behind `CE`, the bytes of the reply are kept, for the
statements only, beside the number that was made of them. -/
inductive LduRequest
  | id (attempt : Nat)
  | idAgain
  | ce
  | sz (answer : Option (List UInt8)) (number : ℤ)

inductive InitLdu
  | asking (request : LduRequest) (r : GetResp)
  | returned (answer : Option (List UInt8)) (number : ℤ)
  | fault

def InitLdu.ask (request : LduRequest) (lb : Locbuf) : InitLdu := .asking request (.start lb)

def initLdu : InitLdu := .ask (.id 0) initLocbuf

/-- `Device ID request`: any reply will do. -/
def InitLdu.identify (resp : Option ℤ) (n : ℤ) (lb : Locbuf) : InitLdu :=
  match lb.prtResp resp n with
  | none => .fault
  | some lb => if resp.isSome then .ask .ce lb else .returned none (-1)

/-- `Calibration number request` -/
def InitLdu.calibrate (resp : Option ℤ) (n : ℤ) (lb : Locbuf) : InitLdu :=
  let answer := resp.map fun p => lb.spc.read p.toNat n.toNat
  match lb.prtResp resp n with
  | none => .fault
  | some lb =>
      if 4 < n then
        match resp.bind lb.calibrationNumber with
        | none => .fault
        | some (lb, number) => .ask (.sz answer number) lb
      else .ask (.sz answer 0) lb

/-- `resp[0]` -/
def Locbuf.byteAt (b : Locbuf) (p : ℤ) : Option UInt8 :=
  if 0 ≤ p ∧ p < locbufSize then some (b.spc p.toNat) else none

/-- What follows when `get_resp` has returned. -/
def InitLdu.answered (request : LduRequest) (resp : Option ℤ) (n : ℤ) (lb : Locbuf) : InitLdu :=
  match request with
  | .id attempt =>
      match resp with
      | none =>
          -- a timeout: the flow is already stopped
          if n = -1 then .ask .idAgain initLocbuf
          else if attempt + 1 < 5 then .ask (.id (attempt + 1)) lb
          else .identify none n lb
      | some p =>
          match lb.byteAt p with
          | none => .fault
          | some c =>
              if c ≠ 0x44 ∧ attempt + 1 < 5 then .ask (.id (attempt + 1)) lb
              else .identify (some p) n lb
  | .idAgain => .identify resp n lb
  | .ce => .calibrate resp n lb
  | .sz answer number =>
      match lb.prtResp resp n with
      | none => .fault
      | some _ => .returned answer number

def initStep : InitLdu → RespAct → Option InitLdu
  | .asking request r, a =>
      (respStep r a).map fun r' =>
        match r'.phase with
        | .returned resp n => .answered request resp n r'.lb
        | .undefined => .fault
        | _ => .asking request r'
  | _, _ => none

/-- A read that is made delivers bytes. -/
def DeliversBytes : InitLdu → RespAct → Prop
  | .asking _ r, a => ReadsSucceed r a
  | _, _ => True

instance (s : InitLdu) (a : RespAct) : Decidable (DeliversBytes s a) :=
  match s with
  | .asking _ r => inferInstanceAs (Decidable (ReadsSucceed r a))
  | .returned _ _ => inferInstanceAs (Decidable True)
  | .fault => inferInstanceAs (Decidable True)

/-! ### The law of the number -/

/-- The number is the one of the reply, and it is negative only if there was no reply. -/
structure NumberRight (answer : Option (List UInt8)) (number : ℤ) : Prop where
  value : ∀ reply digits, answer = some reply → IsCalibrationReply reply digits →
    number = digitsValue digits
  negative : number < 0 → answer = none

def InitLdu.Lawful : InitLdu → Prop
  | .asking (.sz answer number) _ => NumberRight answer number
  | .asking _ _ => True
  | .returned answer number => NumberRight answer number
  | .fault => False

/-- A reply to `CE` whose number is found: up to four bytes with a zero, or five to eight with
a number that is not zero. -/
def AnswerFits (p : ℤ) (reply : List UInt8) : Prop :=
  if 4 < reply.length then
    p + 7 < locbufSize ∧ calibrationText reply ≠ [] ∧
      ¬ IsNegativeNumber (calibrationText reply) ∧
      ∀ digits, IsCalibrationReply reply digits → digits.length ≤ 5
  else ∀ digits, IsCalibrationReply reply digits → digitsValue digits = 0

/-- The first read of a call of `get_resp` finds room in the buffer, and the reply to `CE` is
one whose number is found. -/
def InitLdu.Meets : InitLdu → RespAct → Prop
  | .asking request r, a =>
      (∀ result, a = .read result → r.assigned = false → r.lb.count ≠ locbufSize) ∧
        (request = .ce → ∀ r' p n, respStep r a = some r' → r'.phase = .returned (some p) n →
          AnswerFits p (r'.lb.spc.read p.toNat n.toNat))
  | _, _ => True

/-- What `get_resp` leaves when it returns. -/
inductive RespLeft : Option ℤ → ℤ → Locbuf → Prop
  | null {n : ℤ} {lb : Locbuf} {tail : List UInt8} (hn : n < 0) (hlb : lb.Has tail)
      (hhead : lb.head = 0) (hopen : 0x0d ∉ tail) : RespLeft none n lb
  | line {p : Nat} {front : List UInt8} {lb : Locbuf}
      (hholds : lb.spc.Holds p (front ++ [0x0d]))
      (hfits : p + (front ++ [0x0d]).length ≤ locbufSize)
      (hlb : lb.Has []) (hhead : lb.head = 0) :
      RespLeft (some p) (front ++ [0x0d]).length lb

/-- The buffer holds an unfinished line at each call of `get_resp`. -/
def InitLdu.Inv : InitLdu → Prop
  | .asking request r =>
      (∃ tail : List UInt8, 0x0d ∉ tail ∧ r.Inv tail) ∧ (InitLdu.asking request r).Lawful
  | s => s.Lawful

section Responses

variable {r r' : GetResp} {a : RespAct} {tail : List UInt8}

/-- NULL comes with an error. -/
theorem respStep_null
    {n : ℤ}
    (hstep : respStep r a = some r')
    (hphase : r'.phase = .returned none n) :
    n < 0 := by
  cases a with
  | interrupted =>
      rw [respStep, Option.ite_none_right_eq_some] at hstep
      obtain ⟨hwaiting, heq⟩ := hstep
      obtain rfl := Option.some.inj heq
      rw [hwaiting] at hphase
      exact RespPhase.noConfusion hphase
  | timeout =>
      rw [respStep, Option.ite_none_right_eq_some] at hstep
      obtain rfl := Option.some.inj hstep.2
      rw [RespPhase.returned.injEq] at hphase
      omega
  | ready bytes =>
      rw [respStep, Option.ite_none_right_eq_some] at hstep
      obtain rfl := Option.some.inj hstep.2
      simp only at hphase
      split at hphase
      · rw [RespPhase.returned.injEq] at hphase
        omega
      · exact RespPhase.noConfusion hphase
  | read result =>
      rw [respStep] at hstep
      split at hstep
      · obtain rfl := Option.some.inj hstep
        rw [GetResp.turn] at hphase
        split at hphase
        · exact RespPhase.noConfusion hphase
        · split at hphase
          · split at hphase
            · exact RespPhase.noConfusion hphase
            · simp only at hphase
              split at hphase
              · rename_i hsome
                rw [RespPhase.returned.injEq] at hphase
                rw [hphase.1] at hsome
                exact Bool.noConfusion hsome
              · exact RespPhase.noConfusion hphase
          · split at hphase
            · exact RespPhase.noConfusion hphase
            · exact RespPhase.noConfusion hphase
      · exact absurd hstep (by simp)

/-- With a full buffer the inner loop ends before the pointer has a value. -/
theorem respStep_full
    {result : ReadResult}
    (hassigned : r.assigned = false)
    (hfull : r.lb.count = locbufSize)
    (hstep : respStep r (.read result) = some r') :
    r'.phase = .undefined := by
  rw [respStep] at hstep
  split at hstep
  · rename_i bytes hphase
    obtain rfl := Option.some.inj hstep
    have hrequest : r.lb.request bytes = none := by
      rw [Locbuf.request, if_pos (Or.inl (by omega))]
    rw [GetResp.turn, r.lb.fill_of_request_none hrequest result]
    simp only [if_neg (show ¬ (0 : ℤ) < -1 by omega), hassigned, Bool.false_eq_true, if_false]
  · exact absurd hstep (by simp)

/-- The count of a buffer in which nothing was put yet. -/
theorem GetResp.Inv.room
    (h : r.Inv tail)
    (hopen : 0x0d ∉ tail)
    {bytes : ℤ}
    (hphase : r.phase = .reading bytes)
    (hassigned : r.assigned = false)
    (hcount : r.lb.count ≠ locbufSize) :
    tail.length < locbufSize := by
  have hrunning := h.law.running (by
    rw [hphase]
    exact fun p size => RespPhase.noConfusion)
  have hhas : r.lb.Has tail := by
    have hun := hrunning.2.has
    rwa [GetResp.past, h.fresh hassigned, List.flatten_nil, List.append_nil,
      splitLines_of_not_mem hopen] at hun
  have hle := hhas.length_le
  have hcount' := hhas.count_eq
  omega

/-- **A step of `get_resp`** that is not refused for want of room. -/
theorem GetResp.Inv.step
    (h : r.Inv tail)
    (hopen : 0x0d ∉ tail)
    (hreads : ReadsSucceed r a)
    (hroom : ∀ result, a = .read result → r.assigned = false → r.lb.count ≠ locbufSize)
    (hstep : respStep r a = some r') :
    r'.Inv tail := by
  cases a with
  | read result =>
      cases hphase : r.phase with
      | reading bytes =>
          exact respStep_inv h hopen
            (fun result heq hassigned => h.room hopen hphase hassigned (hroom result heq hassigned))
            hreads hstep
      | waiting | returned p size | undefined => simp [respStep, hphase] at hstep
  | interrupted | timeout | ready bytes =>
      exact respStep_inv h hopen (fun _ heq => RespAct.noConfusion heq) hreads hstep

theorem GetResp.Inv.left
    (h : r'.Inv tail)
    {resp : Option ℤ}
    {n : ℤ}
    (hstep : respStep r a = some r')
    (hphase : r'.phase = .returned resp n) :
    RespLeft resp n r'.lb := by
  cases resp with
  | none =>
      obtain ⟨-, hun⟩ := h.law.running (by
        rw [hphase]
        intro p size heq
        rw [RespPhase.returned.injEq] at heq
        exact absurd heq.1 (by simp))
      exact .null (respStep_null hstep hphase) hun.has hun.head_eq (not_mem_tail _)
  | some p =>
      obtain ⟨-, ⟨line, hline, rfl, hp, hfits, hholds⟩, hlb, hhead⟩ := h.law.returned p n hphase
      obtain ⟨p, rfl⟩ := Int.eq_ofNat_of_zero_le hp
      obtain ⟨front, rfl, -⟩ := isLine_of_mem (List.mem_of_getLast? hline)
      exact .line hholds (by exact_mod_cast hfits) hlb hhead

end Responses

/-! ### The exchanges -/

section Exchanges

variable {lb : Locbuf} {resp : Option ℤ} {n : ℤ}

/-- The next exchange begins. -/
theorem InitLdu.ask_inv
    {request : LduRequest}
    {tail : List UInt8}
    (hlb : lb.Has tail)
    (hhead : lb.head = 0)
    (hopen : 0x0d ∉ tail)
    (hlawful : (InitLdu.ask request lb).Lawful) :
    (InitLdu.ask request lb).Inv :=
  ⟨⟨tail, hopen, .start hlb hhead hopen⟩, hlawful⟩

/-- A byte that is overwritten in an empty buffer. -/
theorem Locbuf.Has.of_spc
    (h : lb.Has [])
    (spc : Bytes) :
    ({ lb with spc := spc } : Locbuf).Has [] :=
  ⟨h.head_nonneg, h.tail_eq, h.tail_le, h.count_eq, Bytes.holds_nil⟩

theorem RespLeft.identify_inv
    (h : RespLeft resp n lb) :
    (InitLdu.identify resp n lb).Inv := by
  cases h with
  | null hn hlb hhead hopen =>
      have hlawful : NumberRight none (-1) := ⟨fun _ _ heq => absurd heq (by simp), fun _ => rfl⟩
      exact hlawful
  | line hholds hfits hlb hhead =>
      rw [InitLdu.identify, (Locbuf.prtResp_line hholds hfits).1]
      exact InitLdu.ask_inv (hlb.of_spc _) hhead List.not_mem_nil trivial

/-- A reply of more than four bytes. -/
theorem calibrate_long_iff
    {p : Nat}
    {front : List UInt8}
    (hholds : lb.spc.Holds p (front ++ [0x0d]))
    (hfits : p + (front ++ [0x0d]).length ≤ locbufSize)
    (hlb : lb.Has [])
    (hhead : lb.head = 0)
    (hlong : 4 < (front ++ [0x0d]).length) :
    ((InitLdu.calibrate (some p) (front ++ [0x0d]).length lb).Lawful →
        AnswerFits p (front ++ [0x0d])) ∧
      (AnswerFits p (front ++ [0x0d]) →
        (InitLdu.calibrate (some p) (front ++ [0x0d]).length lb).Inv) := by
  obtain ⟨hprint, hzero⟩ := Locbuf.prtResp_line hholds hfits
  have hfront : 4 ≤ front.length := by
    rw [List.length_append, List.length_singleton] at hlong
    omega
  have hread : lb.spc.read (p : ℤ).toNat ((front ++ [0x0d]).length : ℤ).toNat =
      front ++ [0x0d] := hholds.read_eq
  have hnegative : atoi (calibrationText (front ++ [0x0d])) < 0 ↔
      IsNegativeNumber (calibrationText (front ++ [0x0d])) :=
    atoi_neg_iff ((length_calibrationText _).trans (by omega))
  rw [AnswerFits, if_pos hlong, InitLdu.calibrate, hprint]
  simp only [Option.map_some, Option.bind_some, hread]
  rw [if_pos (by exact_mod_cast hlong), Locbuf.calibrationNumber_eq hzero hfront 0x0d]
  by_cases hnumber : p + 7 < locbufSize ∧ calibrationText (front ++ [0x0d]) ≠ []
  · rw [if_pos hnumber]
    simp only
    constructor
    · intro hlawful
      obtain ⟨hvalue, hneg⟩ : NumberRight _ _ := hlawful
      refine ⟨by exact_mod_cast hnumber.1, hnumber.2, fun h => ?_, fun digits hreply => ?_⟩
      · exact absurd (hneg (hnegative.mpr h)) (by simp)
      · exact (calibration_number_iff hreply hnumber.2).mp (hvalue _ digits rfl hreply)
    · rintro ⟨-, -, hpositive, hfive⟩
      refine InitLdu.ask_inv ((hlb.of_spc _).of_spc _) hhead List.not_mem_nil ?_
      refine ⟨fun reply digits heq hreply => ?_, fun hneg => absurd (hnegative.mp hneg) hpositive⟩
      obtain rfl := Option.some.inj heq
      exact (calibration_number_iff hreply hnumber.2).mpr (hfive digits hreply)
  · rw [if_neg hnumber]
    constructor
    · exact False.elim
    · rintro ⟨hseven, hne, -⟩
      exact absurd ⟨by exact_mod_cast hseven, hne⟩ hnumber

/-- A reply of up to four bytes, whose number is taken for zero. -/
theorem calibrate_short_iff
    {p : Nat}
    {front : List UInt8}
    (hholds : lb.spc.Holds p (front ++ [0x0d]))
    (hfits : p + (front ++ [0x0d]).length ≤ locbufSize)
    (hlb : lb.Has [])
    (hhead : lb.head = 0)
    (hshort : ¬ 4 < (front ++ [0x0d]).length) :
    ((InitLdu.calibrate (some p) (front ++ [0x0d]).length lb).Lawful →
        AnswerFits p (front ++ [0x0d])) ∧
      (AnswerFits p (front ++ [0x0d]) →
        (InitLdu.calibrate (some p) (front ++ [0x0d]).length lb).Inv) := by
  have hread : lb.spc.read (p : ℤ).toNat ((front ++ [0x0d]).length : ℤ).toNat =
      front ++ [0x0d] := hholds.read_eq
  rw [AnswerFits, if_neg hshort, InitLdu.calibrate, (Locbuf.prtResp_line hholds hfits).1]
  simp only [Option.map_some, hread]
  rw [if_neg (by exact_mod_cast hshort)]
  constructor
  · intro hlawful digits hreply
    have hvalue := NumberRight.value hlawful _ digits rfl hreply
    exact_mod_cast hvalue.symm
  · intro hfits
    refine InitLdu.ask_inv (hlb.of_spc _) hhead List.not_mem_nil ?_
    refine ⟨fun reply digits heq hreply => ?_, fun hneg => absurd hneg (lt_irrefl 0)⟩
    obtain rfl := Option.some.inj heq
    exact_mod_cast (hfits digits hreply).symm

/-- What the answered exchange leads to. -/
theorem RespLeft.answered
    (h : RespLeft resp n lb)
    {request : LduRequest}
    {r : GetResp}
    (hlawful : (InitLdu.asking request r).Lawful) :
    ((InitLdu.answered request resp n lb).Lawful →
        request = .ce → ∀ p, resp = some p → AnswerFits p (lb.spc.read p.toNat n.toNat)) ∧
      ((request = .ce → ∀ p, resp = some p → AnswerFits p (lb.spc.read p.toNat n.toNat)) →
        (InitLdu.answered request resp n lb).Inv) := by
  have hidentify := h.identify_inv
  cases request with
  | id attempt =>
      refine ⟨fun _ heq => LduRequest.noConfusion heq, fun _ => ?_⟩
      cases h with
      | null hn hlb hhead hopen =>
          rw [InitLdu.answered]
          split
          · exact InitLdu.ask_inv initLocbuf_has rfl List.not_mem_nil trivial
          · split
            · exact InitLdu.ask_inv hlb hhead hopen trivial
            · exact hidentify
      | @line p front _ hholds hfits hlb hhead =>
          have hfirst : lb.byteAt p = some (lb.spc p) := by
            rw [List.length_append, List.length_singleton] at hfits
            exact if_pos ⟨Int.natCast_nonneg p, by omega⟩
          rw [InitLdu.answered, hfirst]
          simp only
          split
          · exact InitLdu.ask_inv hlb hhead List.not_mem_nil trivial
          · exact hidentify
  | idAgain => exact ⟨fun _ heq => LduRequest.noConfusion heq, fun _ => hidentify⟩
  | ce =>
      cases h with
      | null hn hlb hhead hopen =>
          refine ⟨fun _ _ p heq => absurd heq (by simp), fun _ => ?_⟩
          rw [InitLdu.answered, InitLdu.calibrate, Locbuf.prtResp]
          simp only [if_neg (show ¬ 4 < n by omega)]
          exact InitLdu.ask_inv hlb hhead hopen
            ⟨fun _ _ heq => absurd heq (by simp), fun _ => rfl⟩
      | @line p front _ hholds hfits hlb hhead =>
          have hread : lb.spc.read (p : ℤ).toNat ((front ++ [0x0d]).length : ℤ).toNat =
              front ++ [0x0d] := hholds.read_eq
          have hfind := if hlong : 4 < (front ++ [0x0d]).length then
              calibrate_long_iff hholds hfits hlb hhead hlong
            else calibrate_short_iff hholds hfits hlb hhead hlong
          constructor
          · intro hright _ p' heq
            obtain rfl := Option.some.inj heq
            rw [hread]
            exact hfind.1 hright
          · intro hanswer
            have hfits := hanswer rfl p rfl
            rw [hread] at hfits
            exact hfind.2 hfits
  | sz answer number =>
      refine ⟨fun _ heq => LduRequest.noConfusion heq, fun _ => ?_⟩
      cases h with
      | null hn hlb hhead hopen => exact hlawful
      | line hholds hfits hlb hhead =>
          rw [InitLdu.answered, (Locbuf.prtResp_line hholds hfits).1]
          exact hlawful

end Exchanges

/-! ### The runs -/

section Runs

variable {s s' : InitLdu} {a : RespAct}

theorem InitLdu.Inv.lawful
    (h : s.Inv) :
    s.Lawful := by
  cases s with
  | asking request r => exact h.2
  | returned answer number => exact h
  | fault => exact h

theorem InitLdu.lawful_of_request
    {request : LduRequest}
    {r : GetResp}
    (h : (InitLdu.asking request r).Lawful)
    (r' : GetResp) :
    (InitLdu.asking request r').Lawful := by
  cases request with
  | id attempt => trivial
  | idAgain => trivial
  | ce => trivial
  | sz answer number => exact h

theorem initLdu_inv : initLdu.Inv :=
  InitLdu.ask_inv initLocbuf_has rfl List.not_mem_nil trivial

/-- **One step.** -/
theorem initStep_inv
    (h : s.Inv)
    (hstep : guarded initStep DeliversBytes s a = some s') :
    (s'.Lawful → s.Meets a) ∧ (s.Meets a → s'.Inv) := by
  rw [guarded, Option.ite_none_right_eq_some] at hstep
  obtain ⟨hreads, hstep⟩ := hstep
  cases s with
  | returned answer number => exact absurd hstep (by simp [initStep])
  | fault => exact h.elim
  | asking request r =>
      obtain ⟨⟨tail, hopen, hinv⟩, hlawful⟩ := h
      rw [initStep, Option.map_eq_some_iff] at hstep
      obtain ⟨r', hresp, rfl⟩ := hstep
      by_cases hroom : ∀ result, a = .read result → r.assigned = false → r.lb.count ≠ locbufSize
      · have hinv' := hinv.step hopen hreads hroom hresp
        cases hphase : r'.phase with
        | undefined => exact absurd hphase hinv'.law.defined
        | waiting | reading bytes =>
            refine ⟨fun _ => ⟨hroom, ?_⟩, fun _ => ⟨⟨tail, hopen, hinv'⟩,
              InitLdu.lawful_of_request hlawful r'⟩⟩
            intro _ r'' p n hresp' hphase'
            rw [hresp, Option.some.injEq] at hresp'
            rw [← hresp', hphase] at hphase'
            exact RespPhase.noConfusion hphase'
        | returned resp n =>
            obtain ⟨hneeds, hkeeps⟩ := (hinv'.left hresp hphase).answered hlawful
            refine ⟨fun hright => ⟨hroom, ?_⟩, fun hmeets => hkeeps ?_⟩
            · intro hce r'' p n' hresp' hphase'
              rw [hresp, Option.some.injEq] at hresp'
              subst hresp'
              rw [hphase, RespPhase.returned.injEq] at hphase'
              obtain ⟨rfl, rfl⟩ := hphase'
              exact hneeds hright hce p rfl
            · rintro hce p rfl
              exact hmeets.2 hce r' p n hresp hphase
      · refine ⟨fun hright => ?_, fun hmeets => absurd hmeets.1 hroom⟩
        push Not at hroom
        obtain ⟨result, rfl, hassigned, hfull⟩ := hroom
        rw [respStep_full hassigned hfull hresp] at hright
        exact hright.elim

/-- **The start of an LDU.**  Along a run in which the reads deliver bytes, `init_ldu` stays in
`spc`, hands no NULL to `atoi` and finds the number of the reply, exactly if each call of
`get_resp` finds room for its first read and the reply to `CE` has four bytes and the number
zero, or begins with no more than five digits that are not all zero, inside `spc` and without
a minus. -/
theorem init_ldu_number_iff
    (schedule : List RespAct) :
    HoldsAlong (guarded initStep DeliversBytes) InitLdu.Lawful initLdu schedule ↔
      MeetsAlong (guarded initStep DeliversBytes) InitLdu.Meets initLdu schedule := by
  refine holdsAlong_iff_meetsAlong (fun _ h => h.lawful) ?_ ?_ initLdu_inv schedule
  · intro s a s' h hstep
    obtain ⟨hneeds, hkeeps⟩ := initStep_inv h hstep
    exact ⟨hneeds, fun hmeets => (hkeeps hmeets).lawful⟩
  · intro s a s' h hmeets hstep
    exact (initStep_inv h hstep).2 hmeets

/-- Everything that the terminal sends to `CE` comes in one read. -/
def answerCe (reply : List UInt8) : List RespAct :=
  [.ready 4, .read (.bytes [0x44, 0x3a, 0x31, 0x0d]), .ready reply.length, .read (.bytes reply)]

/-- `E:0000` ends in `atoi(NULL)`, and of `E:123456` the last digit is lost. -/
theorem init_ldu_number_lost :
    ¬ HoldsAlong (guarded initStep DeliversBytes) InitLdu.Lawful initLdu
        (answerCe [0x45, 0x3a, 0x30, 0x30, 0x30, 0x30, 0x0d]) ∧
      ¬ HoldsAlong (guarded initStep DeliversBytes) InitLdu.Lawful initLdu
        (answerCe [0x45, 0x3a, 0x31, 0x32, 0x33, 0x34, 0x35, 0x36, 0x0d]) := by
  constructor
  · intro h
    have hrun : (runSteps (guarded initStep DeliversBytes) initLdu
        (answerCe [0x45, 0x3a, 0x30, 0x30, 0x30, 0x30, 0x0d])).map
          (fun s => match s with | .fault => true | _ => false) = some true := by decide +kernel
    obtain ⟨s, hs, hfault⟩ := Option.map_eq_some_iff.mp hrun
    have hright := h.last hs
    cases s with
    | fault => exact hright
    | asking request r => exact Bool.noConfusion hfault
    | returned answer number => exact Bool.noConfusion hfault
  · intro h
    have hrun : (runSteps (guarded initStep DeliversBytes) initLdu
        (answerCe [0x45, 0x3a, 0x31, 0x32, 0x33, 0x34, 0x35, 0x36, 0x0d])).map
          (fun s => match s with
            | .asking (.sz answer number) _ => (answer, number)
            | _ => (none, 0)) =
        some (some [0x45, 0x3a, 0x31, 0x32, 0x33, 0x34, 0x35, 0x36, 0x0d], 12345) := by
      decide +kernel
    obtain ⟨s, hs, hnumber⟩ := Option.map_eq_some_iff.mp hrun
    have hright := h.last hs
    cases s with
    | fault => exact hright
    | returned answer number => exact absurd hnumber (by simp)
    | asking request r =>
        cases request with
        | id attempt | idAgain | ce => exact absurd hnumber (by simp)
        | sz answer number =>
            obtain ⟨rfl, rfl⟩ := Prod.mk.inj hnumber
            have hreply : IsCalibrationReply [0x45, 0x3a, 0x31, 0x32, 0x33, 0x34, 0x35, 0x36, 0x0d]
                [0x31, 0x32, 0x33, 0x34, 0x35, 0x36] :=
              ⟨0x45, 0x3a, rfl, by decide, by decide, by decide, List.all_eq_true.mp (by decide)⟩
            exact absurd (NumberRight.value hright _ _ rfl hreply) (by decide +kernel)

end Runs

end Scaled
end MatrixBin
