import MatrixBin.Cjson.ParseDocument
import MatrixBin.Library.TransitionRuns
import MatrixBin.Modbus.WeightMessage
import Mathlib.Logic.Function.Basic

/-!
# Reads while weights arrive (`mqtt_thread.c`, `mdb.c`, `serialize.c`)

`on_message` runs in the MQTT thread and stores a weight by five assignments to the words of
`wgt`; the threads of the connections copy these words one after the other in `serialize_db`,
each into its own `rt_db`.  Nothing locks them out: here every assignment and every copied word
is a step, and the steps are interleaved in any order.

`client_reads_weights` says what a reply can show.
-/

namespace MatrixBin
namespace Modbus

open Library Library.JsonText

/-- `sizeof ibuf` -/
def ibufSize : Nat := 512

/-- What `on_message` does with a message: nothing, store a weight, or leave `ibuf` or read a
null `valuestring`. -/
inductive MessageEffect
  | ignored
  | weight (w : UInt16)
  | faults
deriving DecidableEq

/-- `on_message` up to its assignments.  Without `CJSON_VERSION_FULL` the text is parsed up to its
first zero. -/
def messageEffect (topic payload : List UInt8) : MessageEffect :=
  if topic ≠ wgtTopic then .ignored
  else if ibufSize ≤ payload.length then .faults
  else
    match Cjson.parse (stringAt payload) with
    | none => .ignored
    | some jmsg =>
        match jmsg.getObjectItem "SumWgtR" with
        | none => .ignored
        | some jwgt =>
            match jwgt.getStringValue with
            | none => .faults
            | some valuestring => .weight (UInt16.ofInt (atoi valuestring))

/-- The assignment number `k` of `on_message` to `wgt.d`. -/
def assignWeight (wgt : Nat → UInt16) (w : UInt16) (k : Nat) : Nat → UInt16 :=
  Function.update wgt k (if k = 2 then w else if k = 3 then wgt 2 else 0)

/-- A thread inside `serialize_db`: so many words of `wgt` are in `msg`.  `since` is how many
weights had been stored before the request, and `seen` how many had reached a word when it was
copied. -/
structure Copying where
  since : Nat
  rtDb : Bytes
  buf : Bytes
  count : Nat
  msg : Nat → UInt16
  seen : Nat → Nat

/-- The registers of the weight in a reply, and how many weights had come until then. -/
structure WeightReply where
  since : Nat
  upto : Nat
  buf : Bytes
  regs : List Nat

/-- The words `wgt.d`; the weight that is being stored, with the number of assignments done; the
threads of the connections; the weights that have come and the replies so far. -/
structure WeightThreads where
  wgt : Nat → UInt16
  storing : Option (UInt16 × Nat)
  copying : Nat → Option Copying
  weights : List UInt16
  replies : List WeightReply

inductive WeightAct
  | message (topic payload : List UInt8)
  | assign
  | request (c : Nat) (rtDb buf : Bytes)
  | copy (c : Nat)
  | reply (c : Nat)

/-- How many weights have reached the word `n`. -/
def WeightThreads.stored (s : WeightThreads) (n : Nat) : Nat :=
  match s.storing with
  | none => s.weights.length
  | some (_, k) => if n < k then s.weights.length else s.weights.length - 1

/-- The database with the words that were copied. -/
def Database.withWords (db : Database) (msg : Nat → UInt16) : Database :=
  { db with wgt := #v[msg 0, msg 1, msg 2, msg 3, msg 4] }

def WeightThreads.setCopying (s : WeightThreads) (c : Nat) (x : Option Copying) : WeightThreads :=
  { s with copying := Function.update s.copying c x }

/-- A step of a thread; `db` holds the car and the seals, which no thread changes. -/
def weightStep (db : Database) (s : WeightThreads) : WeightAct → Option WeightThreads
  | .message topic payload =>
      if s.storing ≠ none then none
      else
        match messageEffect topic payload with
        | .ignored => some s
        | .weight w => some { s with storing := some (w, 0), weights := s.weights ++ [w] }
        | .faults => none
  | .assign =>
      s.storing.map fun (w, k) =>
        { s with
          wgt := assignWeight s.wgt w k
          storing := if k = 4 then none else some (w, k + 1) }
  | .request c rtDb buf =>
      if s.copying c = none then
        some (s.setCopying c (some ⟨s.stored 4, rtDb, buf, 0, fun _ => 0, fun _ => 0⟩))
      else none
  | .copy c =>
      (s.copying c).bind fun x =>
        if x.count < 5 then
          some (s.setCopying c (some { x with
            count := x.count + 1
            msg := Function.update x.msg x.count (s.wgt x.count)
            seen := Function.update x.seen x.count (s.stored x.count) }))
        else none
  | .reply c =>
      (s.copying c).bind fun x =>
        if x.count < 5 then none
        else
          (readWeight (db.withWords x.msg) x.rtDb x.buf).map fun regs =>
            { s.setCopying c none with
              replies := s.replies ++ [⟨x.since, s.weights.length, x.buf, regs⟩] }

/-- The program when its threads begin. -/
def WeightThreads.atStart (testMode : Bool) : WeightThreads where
  wgt := fun n => (Database.atStart testMode).wgt.toList.getD n 0
  storing := none
  copying := fun _ => none
  weights := []
  replies := []

/-- The weight of a message. -/
def WeightAct.weight : WeightAct → Option UInt16
  | .message topic payload =>
      match messageEffect topic payload with
      | .weight w => some w
      | _ => none
  | _ => none

/-- The word `n` of the weight number `k`; those of the number 0 are there at the start. -/
def wordNo (testMode : Bool) (weights : List UInt16) (n k : Nat) : UInt16 :=
  match k with
  | 0 => (Database.atStart testMode).wgt.toList.getD n 0
  | k + 1 => if n = 2 ∨ n = 3 then weights.getD k 0 else 0

section WeightReads

variable {db : Database} {testMode : Bool} {s s' : WeightThreads}

/-! ### The text of a message -/

/-- The first member that is called `SumWgtR`, in any case of its letters, decides. -/
theorem messageEffect_document
    {n : Nat} {v : Json} {payload : List UInt8}
    (h : Document n v payload)
    (hn : n ≤ Cjson.nestingLimit)
    (hlen : payload.length < ibufSize) :
    messageEffect wgtTopic payload =
      match (v.getObjectItem "SumWgtR").map Json.getStringValue with
      | none => .ignored
      | some none => .faults
      | some (some valuestring) => .weight (UInt16.ofInt (atoi valuestring)) := by
  rw [messageEffect, if_neg (not_not.mpr rfl), if_neg (not_le.mpr hlen),
    Cjson.parse_document h hn]
  cases hitem : v.getObjectItem "SumWgtR" with
  | none => simp only [hitem, Option.map_none]
  | some jwgt =>
      cases hvalue : jwgt.getStringValue with
      | none => simp only [hitem, hvalue, Option.map_some]
      | some valuestring => simp only [hitem, hvalue, Option.map_some]

/-! ### What a step changes -/

theorem wordNo_append
    {weights : List UInt16} {k : Nat}
    (hk : k ≤ weights.length)
    (more : List UInt16)
    (n : Nat) :
    wordNo testMode (weights ++ more) n k = wordNo testMode weights n k := by
  cases k with
  | zero => rfl
  | succ k => rw [wordNo, wordNo, List.getD_append _ _ _ _ hk]

theorem wordNo_last
    (before : List UInt16)
    (w : UInt16)
    (n : Nat) :
    wordNo testMode (before ++ [w]) n (before ++ [w]).length = if n = 2 ∨ n = 3 then w else 0 := by
  rw [List.length_append, List.length_singleton, wordNo]
  simp

theorem WeightThreads.stored_of_none
    (h : s.storing = none)
    (n : Nat) :
    s.stored n = s.weights.length := by
  rw [WeightThreads.stored, h]

theorem WeightThreads.stored_of_some
    {w : UInt16} {k : Nat}
    (h : s.storing = some (w, k))
    (n : Nat) :
    s.stored n = if n < k then s.weights.length else s.weights.length - 1 := by
  rw [WeightThreads.stored, h]

theorem WeightThreads.stored_le
    (s : WeightThreads)
    (n : Nat) :
    s.stored n ≤ s.weights.length := by
  rw [WeightThreads.stored]
  split
  · exact le_rfl
  · split <;> omega

/-- The words are written in order, and only the last weight is under way. -/
theorem WeightThreads.stored_anti
    (s : WeightThreads)
    {n m : Nat}
    (h : n ≤ m) :
    s.stored m ≤ s.stored n ∧ s.stored n ≤ s.stored m + 1 := by
  rw [WeightThreads.stored, WeightThreads.stored]
  split
  · exact ⟨le_rfl, Nat.le_succ _⟩
  · split_ifs <;> omega

/-- The weights that have come stay, and none leaves a word that it has reached. -/
structure WeightThreads.Later (s s' : WeightThreads) : Prop where
  weights : s.weights <+: s'.weights
  stored : ∀ n, s.stored n ≤ s'.stored n

/-- A step of `on_message`, or one that leaves the weights alone. -/
inductive StoreStep (s s' : WeightThreads) (a : WeightAct) : Prop
  | other
      (hwgt : s'.wgt = s.wgt)
      (hstoring : s'.storing = s.storing)
      (hweights : s'.weights = s.weights)
      (hnone : a.weight = none)
  | message
      {w : UInt16}
      (hidle : s.storing = none)
      (hs' : s' = { s with storing := some (w, 0), weights := s.weights ++ [w] })
      (hweight : a.weight = some w)
  | assign
      {w : UInt16} {k : Nat}
      (hstoring : s.storing = some (w, k))
      (hs' : s' =
        { s with
          wgt := assignWeight s.wgt w k
          storing := if k = 4 then none else some (w, k + 1) })
      (hnone : a.weight = none)

theorem weightStep_store
    {a : WeightAct}
    (hstep : weightStep db s a = some s') :
    StoreStep s s' a := by
  cases a with
  | message topic payload =>
      rw [weightStep] at hstep
      split_ifs at hstep with hidle
      cases heffect : messageEffect topic payload with
      | ignored =>
          rw [heffect] at hstep
          obtain rfl := Option.some.inj hstep
          exact .other rfl rfl rfl (by rw [WeightAct.weight, heffect])
      | weight w =>
          rw [heffect] at hstep
          refine .message (not_not.mp hidle) (Option.some.inj hstep).symm ?_
          rw [WeightAct.weight, heffect]
      | faults => rw [heffect] at hstep; cases hstep
  | assign =>
      obtain ⟨⟨w, k⟩, hstoring, hs'⟩ := Option.map_eq_some_iff.mp hstep
      exact .assign hstoring hs'.symm rfl
  | request c rtDb buf =>
      rw [weightStep, Option.ite_none_right_eq_some] at hstep
      obtain rfl := Option.some.inj hstep.2
      exact .other rfl rfl rfl rfl
  | copy c =>
      obtain ⟨x, -, hx⟩ := Option.bind_eq_some_iff.mp hstep
      rw [Option.ite_none_right_eq_some] at hx
      obtain rfl := Option.some.inj hx.2
      exact .other rfl rfl rfl rfl
  | reply c =>
      obtain ⟨x, -, hx⟩ := Option.bind_eq_some_iff.mp hstep
      rw [Option.ite_none_left_eq_some] at hx
      obtain ⟨regs, -, rfl⟩ := Option.map_eq_some_iff.mp hx.2
      exact .other rfl rfl rfl rfl

theorem StoreStep.later
    {a : WeightAct}
    (h : StoreStep s s' a) :
    s.Later s' ∧ s'.weights = s.weights ++ a.weight.toList := by
  cases h with
  | other _ hstoring hweights hnone =>
      refine ⟨⟨by rw [hweights], fun n => ?_⟩, by rw [hnone, hweights]; simp⟩
      rw [WeightThreads.stored, WeightThreads.stored, hstoring, hweights]
  | message hidle hs' hweight =>
      subst hs'
      refine ⟨⟨List.prefix_append _ _, fun n => ?_⟩, by rw [hweight]; rfl⟩
      simp [WeightThreads.stored, hidle]
  | @assign w k hstoring hs' hnone =>
      have hweights : s'.weights = s.weights := by rw [hs']
      refine ⟨⟨by rw [hweights], fun n => ?_⟩, by rw [hnone, hweights]; simp⟩
      by_cases hfour : k = 4
      · rw [WeightThreads.stored_of_none (s := s') (by rw [hs']; exact if_pos hfour), hweights]
        exact s.stored_le n
      · rw [WeightThreads.stored_of_some (s := s') (by rw [hs']; exact if_neg hfour), hweights,
          WeightThreads.stored_of_some hstoring]
        split_ifs <;> omega

@[simp] theorem WeightThreads.setCopying_self
    (s : WeightThreads)
    (c : Nat)
    (x : Option Copying) :
    (s.setCopying c x).copying c = x :=
  Function.update_self ..

theorem WeightThreads.setCopying_of_ne
    {c c' : Nat}
    (h : c ≠ c')
    (s : WeightThreads)
    (x : Option Copying) :
    (s.setCopying c' x).copying c = s.copying c :=
  Function.update_of_ne h ..

/-! ### The words of the weight -/

/-- The words show the weights that have reached them. -/
structure WeightThreads.Words (testMode : Bool) (s : WeightThreads) : Prop where
  storing : ∀ w k, s.storing = some (w, k) → k < 5 ∧ ∃ before, s.weights = before ++ [w]
  wgt : ∀ n < 5, s.wgt n = wordNo testMode s.weights n (s.stored n)

theorem words_atStart : (WeightThreads.atStart testMode).Words testMode where
  storing := fun _ _ h => (Option.some_ne_none _ h.symm).elim
  wgt := fun _ _ => rfl

theorem StoreStep.words
    {a : WeightAct}
    (h : StoreStep s s' a)
    (hwords : s.Words testMode) :
    s'.Words testMode := by
  obtain ⟨hunder, hwgt⟩ := hwords
  cases h with
  | other hwgt' hstoring hweights _ =>
      have hstored : s'.stored = s.stored := by
        funext n
        rw [WeightThreads.stored, WeightThreads.stored, hstoring, hweights]
      exact ⟨by rwa [hstoring, hweights], by rwa [hwgt', hweights, hstored]⟩
  | @message w hidle hs' hweight =>
      subst hs'
      refine ⟨?_, fun n hn => ?_⟩
      · rintro w' k heq
        obtain ⟨rfl, rfl⟩ := Prod.mk.inj (Option.some.inj heq)
        exact ⟨by omega, s.weights, rfl⟩
      · have hstored : WeightThreads.stored
            { s with storing := some (w, 0), weights := s.weights ++ [w] } n = s.stored n := by
          simp [WeightThreads.stored, hidle]
        rw [hstored, wordNo_append (s.stored_le n), hwgt n hn]
  | @assign w k hstoring hs' _ =>
      obtain ⟨hk, before, hbefore⟩ := hunder w k hstoring
      have hassigned : s'.wgt = assignWeight s.wgt w k := by rw [hs']
      have hweights : s'.weights = s.weights := by rw [hs']
      have hlast : ∀ n, wordNo testMode s.weights n s.weights.length =
          if n = 2 ∨ n = 3 then w else 0 := by
        rw [hbefore]
        exact wordNo_last before w
      have hstored : ∀ n < 5,
          s'.stored n = if n = k then s.weights.length else s.stored n := by
        intro n hn
        by_cases hfour : k = 4
        · rw [WeightThreads.stored_of_none (s := s') (by rw [hs']; exact if_pos hfour), hweights,
            WeightThreads.stored_of_some hstoring]
          split_ifs <;> omega
        · rw [WeightThreads.stored_of_some (s := s') (by rw [hs']; exact if_neg hfour), hweights,
            WeightThreads.stored_of_some hstoring]
          split_ifs <;> omega
      refine ⟨fun w' k' heq => ?_, fun n hn => ?_⟩
      · rw [hs'] at heq
        simp only at heq
        split_ifs at heq with hfour
        obtain ⟨rfl, rfl⟩ := Prod.mk.inj (Option.some.inj heq)
        exact ⟨by omega, before, by rw [hweights, hbefore]⟩
      · rw [hassigned, hweights, hstored n hn, assignWeight]
        by_cases hn' : n = k
        · subst hn'
          rw [Function.update_self, if_pos rfl, hlast]
          by_cases hthree : n = 3
          · -- netto is read from the brutto that has just been stored
            subst hthree
            have hbrutto : s.stored 2 = s.weights.length := WeightThreads.stored_of_some hstoring 2
            rw [if_neg (by decide), if_pos rfl, hwgt 2 (by decide), hbrutto, hlast]
            rfl
          · simp only [hthree, if_false, or_false]
        · rw [Function.update_of_ne hn', if_neg hn', hwgt n hn]

/-! ### What a thread copies -/

/-- The words copied so far: none is older than the request, and none is more than one weight
behind a word that was copied before it. -/
structure Copying.Copied (testMode : Bool) (s : WeightThreads) (x : Copying) : Prop where
  count_le : x.count ≤ 5
  since_le : x.since ≤ s.stored 4
  msg : ∀ n < x.count, x.msg n = wordNo testMode s.weights n (x.seen n)
  seen : ∀ n < x.count, x.since ≤ x.seen n ∧ x.seen n ≤ s.stored n
  near : ∀ n m, n ≤ m → m < x.count → x.seen n ≤ x.seen m + 1

/-- A copied word stays what it is. -/
theorem Copying.Copied.later
    {x : Copying}
    (h : x.Copied testMode s)
    (hlater : s.Later s') :
    x.Copied testMode s' := by
  obtain ⟨hcount, hsince, hmsg, hseen, hnear⟩ := h
  obtain ⟨⟨more, hmore⟩, hstored⟩ := hlater
  refine ⟨hcount, hsince.trans (hstored 4), fun n hn => ?_, fun n hn => ?_, hnear⟩
  · rw [hmsg n hn, ← hmore, wordNo_append ((hseen n hn).2.trans (s.stored_le n))]
  · exact ⟨(hseen n hn).1, (hseen n hn).2.trans (hstored n)⟩

/-- The next word is that of the last weight that has reached it. -/
theorem Copying.Copied.copy
    {x : Copying}
    (h : x.Copied testMode s)
    (hwords : s.Words testMode)
    (hmore : x.count < 5) :
    Copying.Copied testMode s { x with
      count := x.count + 1
      msg := Function.update x.msg x.count (s.wgt x.count)
      seen := Function.update x.seen x.count (s.stored x.count) } := by
  obtain ⟨-, hsince, hmsg, hseen, hnear⟩ := h
  have hnewest : x.since ≤ s.stored x.count :=
    hsince.trans (s.stored_anti (Nat.lt_succ_iff.mp hmore)).1
  refine ⟨hmore, hsince, fun n hn => ?_, fun n hn => ?_, fun n m hnm hm => ?_⟩
  · rcases Nat.lt_succ_iff_lt_or_eq.mp hn with hold | rfl
    · simp only [Function.update_of_ne hold.ne, hmsg n hold]
    · simp only [Function.update_self, hwords.wgt _ hmore]
  · rcases Nat.lt_succ_iff_lt_or_eq.mp hn with hold | rfl
    · simpa only [Function.update_of_ne hold.ne] using hseen n hold
    · simp only [Function.update_self]
      exact ⟨hnewest, le_rfl⟩
  · rcases Nat.lt_succ_iff_lt_or_eq.mp hm with hold | rfl
    · simpa only [Function.update_of_ne (hnm.trans_lt hold).ne, Function.update_of_ne hold.ne]
        using hnear n m hnm hold
    · rcases hnm.lt_or_eq with hlt | rfl
      · simp only [Function.update_of_ne hlt.ne, Function.update_self]
        exact (hseen n hlt).2.trans (s.stored_anti hnm).2
      · exact Nat.le_succ _

/-- The registers of a reply: each shows a weight that had come before the reply. -/
structure WeightReply.Shows (testMode : Bool) (weights : List UInt16) (r : WeightReply)
    (seen : Nat → Nat) : Prop where
  regs : r.regs = (List.range 5).map fun n => (wordNo testMode weights n (seen n)).toNat
  fresh : ∀ n < 5, r.since ≤ seen n ∧ seen n ≤ r.upto
  near : ∀ n m, n ≤ m → m < 5 → seen n ≤ seen m + 1

/-- A reply stays what it is. -/
theorem WeightReply.Shows.later
    {weights more : List UInt16} {r : WeightReply} {seen : Nat → Nat}
    (h : r.Shows testMode weights seen)
    (hupto : r.upto ≤ weights.length) :
    r.Shows testMode (weights ++ more) seen := by
  refine ⟨?_, h.fresh, h.near⟩
  rw [h.regs]
  refine List.map_congr_left fun n hn => ?_
  rw [wordNo_append ((h.fresh n (List.mem_range.mp hn)).2.trans hupto)]

/-! ### Runs -/

/-- The invariant of a run with these actions. -/
structure WeightThreads.Inv (testMode : Bool) (acts : List WeightAct) (s : WeightThreads) :
    Prop where
  weights : s.weights = acts.filterMap WeightAct.weight
  words : s.Words testMode
  copies : ∀ c x, s.copying c = some x → x.Copied testMode s
  replies : ∀ r ∈ s.replies, r.upto ≤ s.weights.length ∧
    (IsWeightRequest r.buf → ∃ seen, r.Shows testMode s.weights seen)

theorem WeightThreads.inv_atStart : (WeightThreads.atStart testMode).Inv testMode [] where
  weights := rfl
  words := words_atStart
  copies := fun _ _ h => (Option.some_ne_none _ h.symm).elim
  replies := fun _ hr => absurd hr List.not_mem_nil

/-- What the thread of a connection has copied after a step. -/
theorem WeightThreads.Inv.copies_step
    {acts : List WeightAct} {a : WeightAct}
    (h : s.Inv testMode acts)
    (hstep : weightStep db s a = some s')
    (hlater : s.Later s')
    {c : Nat} {x : Copying}
    (hx : s'.copying c = some x) :
    x.Copied testMode s' := by
  suffices hs : x.Copied testMode s from hs.later hlater
  have hset : ∀ c' y, s'.copying = (s.setCopying c' y).copying →
      (∀ z, y = some z → z.Copied testMode s) → x.Copied testMode s := by
    intro c' y hcopying hy
    rw [hcopying] at hx
    by_cases hc : c = c'
    · subst hc
      rw [WeightThreads.setCopying_self] at hx
      exact hy x hx
    · rw [WeightThreads.setCopying_of_ne hc] at hx
      exact h.copies c x hx
  cases a with
  | message topic payload =>
      rw [weightStep] at hstep
      split_ifs at hstep
      cases heffect : messageEffect topic payload with
      | ignored =>
          rw [heffect] at hstep
          obtain rfl := Option.some.inj hstep
          exact h.copies c x hx
      | weight w =>
          rw [heffect] at hstep
          obtain rfl := Option.some.inj hstep
          exact h.copies c x hx
      | faults => rw [heffect] at hstep; cases hstep
  | assign =>
      obtain ⟨⟨w, k⟩, -, rfl⟩ := Option.map_eq_some_iff.mp hstep
      exact h.copies c x hx
  | request c' rtDb buf =>
      rw [weightStep, Option.ite_none_right_eq_some] at hstep
      obtain rfl := Option.some.inj hstep.2
      refine hset c' _ rfl fun z hz => ?_
      obtain rfl := Option.some.inj hz
      exact ⟨Nat.zero_le 5, le_rfl, fun n hn => absurd hn n.not_lt_zero,
        fun n hn => absurd hn n.not_lt_zero, fun _ m _ hm => absurd hm m.not_lt_zero⟩
  | copy c' =>
      obtain ⟨y, hy, hcopy⟩ := Option.bind_eq_some_iff.mp hstep
      rw [Option.ite_none_right_eq_some] at hcopy
      obtain ⟨hmore, hs'⟩ := hcopy
      obtain rfl := Option.some.inj hs'
      refine hset c' _ rfl fun z hz => ?_
      obtain rfl := Option.some.inj hz
      exact (h.copies c' y hy).copy h.words hmore
  | reply c' =>
      obtain ⟨y, -, hreply⟩ := Option.bind_eq_some_iff.mp hstep
      rw [Option.ite_none_left_eq_some] at hreply
      obtain ⟨regs, -, rfl⟩ := Option.map_eq_some_iff.mp hreply.2
      exact hset c' none rfl fun z hz => (Option.some_ne_none z hz.symm).elim

/-- The reply of a thread that has copied all the words. -/
theorem Copying.Copied.shows
    {x : Copying} {regs : List Nat}
    (h : x.Copied testMode s)
    (hall : ¬ x.count < 5)
    (hdb : db.regs ≤ 120)
    (hregs : readWeight (db.withWords x.msg) x.rtDb x.buf = some regs)
    (hbuf : IsWeightRequest x.buf) :
    WeightReply.Shows testMode s.weights ⟨x.since, s.weights.length, x.buf, regs⟩ x.seen := by
  obtain ⟨-, -, hmsg, hseen, hnear⟩ := h
  have hcopied : ∀ {n : Nat}, n < 5 → n < x.count := fun hn => hn.trans_le (not_lt.mp hall)
  refine ⟨?_, fun n hn => ?_, fun n m hnm hm => hnear n m hnm (hcopied hm)⟩
  · have hdb' : (db.withWords x.msg).regs ≤ 120 := hdb
    obtain rfl := Option.some.inj (hregs.symm.trans (readWeight_eq hdb' x.rtDb hbuf))
    have hwords : (db.withWords x.msg).wgt.toList = (List.range 5).map x.msg := rfl
    rw [hwords, List.map_map]
    refine List.map_congr_left fun n hn => ?_
    rw [Function.comp_apply, hmsg n (hcopied (List.mem_range.mp hn))]
  · exact ⟨(hseen n (hcopied hn)).1, (hseen n (hcopied hn)).2.trans (s.stored_le n)⟩

/-- The replies so far, and one more at most. -/
theorem WeightThreads.Inv.replies_step
    {acts : List WeightAct} {a : WeightAct}
    (h : s.Inv testMode acts)
    (hdb : db.regs ≤ 120)
    (hstep : weightStep db s a = some s') :
    s'.replies = s.replies ∨ ∃ r : WeightReply, s'.replies = s.replies ++ [r] ∧
      r.upto = s.weights.length ∧
      (IsWeightRequest r.buf → ∃ seen, r.Shows testMode s.weights seen) := by
  cases a with
  | message topic payload =>
      rw [weightStep] at hstep
      split_ifs at hstep
      cases heffect : messageEffect topic payload with
      | ignored => rw [heffect] at hstep; exact .inl (by rw [← Option.some.inj hstep])
      | weight w => rw [heffect] at hstep; exact .inl (by rw [← Option.some.inj hstep])
      | faults => rw [heffect] at hstep; cases hstep
  | assign =>
      obtain ⟨⟨w, k⟩, -, rfl⟩ := Option.map_eq_some_iff.mp hstep
      exact .inl rfl
  | request c rtDb buf =>
      rw [weightStep, Option.ite_none_right_eq_some] at hstep
      exact .inl (by rw [← Option.some.inj hstep.2]; rfl)
  | copy c =>
      obtain ⟨y, -, hcopy⟩ := Option.bind_eq_some_iff.mp hstep
      rw [Option.ite_none_right_eq_some] at hcopy
      exact .inl (by rw [← Option.some.inj hcopy.2]; rfl)
  | reply c =>
      obtain ⟨y, hy, hreply⟩ := Option.bind_eq_some_iff.mp hstep
      rw [Option.ite_none_left_eq_some] at hreply
      obtain ⟨hall, hmap⟩ := hreply
      obtain ⟨regs, hregs, rfl⟩ := Option.map_eq_some_iff.mp hmap
      exact .inr ⟨_, rfl, rfl, fun hbuf => ⟨y.seen, (h.copies c y hy).shows hall hdb hregs hbuf⟩⟩

theorem WeightThreads.Inv.step
    {acts : List WeightAct} {a : WeightAct}
    (h : s.Inv testMode acts)
    (hdb : db.regs ≤ 120)
    (hstep : weightStep db s a = some s') :
    s'.Inv testMode (acts ++ [a]) := by
  have hstore := weightStep_store hstep
  obtain ⟨hlater, hweights⟩ := hstore.later
  refine ⟨?_, hstore.words h.words, fun c x hx => h.copies_step hstep hlater hx, fun r hr => ?_⟩
  · rw [hweights, h.weights, List.filterMap_append]
    cases hw : a.weight with
    | none => simp [hw]
    | some w => simp [hw]
  · have hkept : ∀ r : WeightReply, r.upto ≤ s.weights.length →
        (IsWeightRequest r.buf → ∃ seen, r.Shows testMode s.weights seen) →
        r.upto ≤ s'.weights.length ∧
          (IsWeightRequest r.buf → ∃ seen, r.Shows testMode s'.weights seen) := by
      intro r hupto hshows
      rw [hweights]
      refine ⟨hupto.trans (by simp), fun hbuf => ?_⟩
      obtain ⟨seen, hseen⟩ := hshows hbuf
      exact ⟨seen, hseen.later hupto⟩
    rcases h.replies_step hdb hstep with hsame | ⟨r', hnew, hupto, hshows⟩
    · rw [hsame] at hr
      exact hkept r (h.replies r hr).1 (h.replies r hr).2
    · rw [hnew] at hr
      rcases List.mem_append.mp hr with hold | hlast
      · exact hkept r (h.replies r hold).1 (h.replies r hold).2
      · obtain rfl := List.mem_singleton.mp hlast
        exact hkept r hupto.le hshows

theorem WeightThreads.inv_run
    {acts : List WeightAct}
    (hrun : runSteps (weightStep (.atStart testMode)) (.atStart testMode) acts = some s) :
    s.Inv testMode acts := by
  have hdb : (Database.atStart testMode).regs ≤ 120 := Database.after_regs_le testMode []
  exact runSteps_invariant WeightThreads.inv_atStart (fun _ _ _ _ h hstep => h.step hdb hstep) hrun

/-- **What a client reads while weights arrive.**  In every interleaving, each register of a reply
shows a weight that had come before the reply and that is no older than those stored before the
request; a register is at most one weight behind those in front of it. -/
theorem client_reads_weights
    {acts : List WeightAct}
    (hrun : runSteps (weightStep (.atStart testMode)) (.atStart testMode) acts = some s)
    {r : WeightReply}
    (hr : r ∈ s.replies)
    (hbuf : IsWeightRequest r.buf) :
    ∃ seen : Nat → Nat,
      (r.regs = (List.range 5).map fun n =>
        (wordNo testMode (acts.filterMap WeightAct.weight) n (seen n)).toNat) ∧
      (∀ n < 5, r.since ≤ seen n ∧ seen n ≤ r.upto) ∧
      ∀ n m, n ≤ m → m < 5 → seen n ≤ seen m + 1 := by
  have hinv := WeightThreads.inv_run hrun
  obtain ⟨seen, hregs, hfresh, hnear⟩ := (hinv.replies r hr).2 hbuf
  rw [hinv.weights] at hregs
  exact ⟨seen, hregs, hfresh, hnear⟩

/-- The text `{"SumWgtR":"5"}`. -/
def fiveText : List UInt8 :=
  [0x7b, 0x22, 0x53, 0x75, 0x6d, 0x57, 0x67, 0x74, 0x52, 0x22, 0x3a, 0x22, 0x35, 0x22, 0x7d]

/-- The program with the message of the weight 5. -/
def fiveArrived : WeightThreads :=
  { WeightThreads.atStart false with storing := some (5, 0), weights := [5] }

/-- Its words are copied when its brutto is stored and its netto is not. -/
def tornCopy : List WeightAct :=
  [.assign, .assign, .assign, .request 0 (fun _ => 0) weightRequest, .copy 0, .copy 0, .copy 0,
    .copy 0, .copy 0]

def tornRead : List WeightAct := .message wgtTopic fiveText :: (tornCopy ++ [.reply 0])

theorem fiveText_arrives :
    weightStep (.atStart false) (.atStart false) (.message wgtTopic fiveText) =
      some fiveArrived := by
  have heffect : messageEffect wgtTopic fiveText = .weight 5 := by decide +kernel
  have hidle : ¬ (WeightThreads.atStart false).storing ≠ none := fun h => h rfl
  rw [weightStep, if_neg hidle, heffect]
  rfl

/-- A thread with all the words replies. -/
theorem reply_of_copied
    {x : Copying}
    (hx : s.copying 0 = some x)
    (hcount : x.count = 5)
    (hbuf : x.buf = weightRequest) :
    weightStep (.atStart testMode) s (.reply 0) =
      some { s.setCopying 0 none with
        replies := s.replies ++ [⟨x.since, s.weights.length, x.buf,
          (List.range 5).map fun n => (x.msg n).toNat⟩] } := by
  have hdb : ((Database.atStart testMode).withWords x.msg).regs ≤ 120 :=
    Database.after_regs_le testMode []
  have hread : readWeight ((Database.atStart testMode).withWords x.msg) x.rtDb x.buf =
      some ((List.range 5).map fun n => (x.msg n).toNat) := by
    rw [hbuf]
    exact readWeight_eq hdb x.rtDb isWeightRequest_weightRequest
  simp only [weightStep, hx, hcount, Nat.lt_irrefl, if_false, hread, Option.map_some,
    Option.bind_some]

/-- A run with the message, its copy and the reply. -/
theorem fiveText_reply
    {copies : List WeightAct} {x : Copying}
    (hrun : runSteps (weightStep (.atStart false)) fiveArrived copies = some s)
    (hx : s.copying 0 = some x)
    (hcount : x.count = 5)
    (hbuf : x.buf = weightRequest) :
    runSteps (weightStep (.atStart false)) (.atStart false)
      (.message wgtTopic fiveText :: (copies ++ [.reply 0])) =
      some { s.setCopying 0 none with
        replies := s.replies ++ [⟨x.since, s.weights.length, x.buf,
          (List.range 5).map fun n => (x.msg n).toNat⟩] } := by
  rw [runSteps, fiveText_arrives]
  simp only [runSteps_append_singleton, hrun, Option.bind_some]
  exact reply_of_copied hx hcount hbuf

theorem client_reads_weights_torn :
    ∃ s, runSteps (weightStep (.atStart false)) (.atStart false) tornRead = some s ∧
      ∃ r ∈ s.replies, r.regs = [0, 0, 5, 0, 0] ∧ ∃ seen : Nat → Nat,
        (r.regs = (List.range 5).map fun n =>
          (wordNo false (tornRead.filterMap WeightAct.weight) n (seen n)).toNat) ∧
        (∀ n < 5, r.since ≤ seen n ∧ seen n ≤ r.upto) ∧
        ∀ n m, n ≤ m → m < 5 → seen n ≤ seen m + 1 := by
  obtain ⟨s, x, hrun, hx, hcount, hbuf, hregs⟩ : ∃ s x,
      runSteps (weightStep (.atStart false)) fiveArrived tornCopy = some s ∧
      s.copying 0 = some x ∧ x.count = 5 ∧ x.buf = weightRequest ∧
      ((List.range 5).map fun n => (x.msg n).toNat) = [0, 0, 5, 0, 0] :=
    ⟨_, _, rfl, rfl, rfl, rfl, rfl⟩
  have hwhole := fiveText_reply hrun hx hcount hbuf
  refine ⟨_, hwhole, _, List.mem_append_right _ List.mem_cons_self, hregs, ?_⟩
  refine client_reads_weights hwhole (List.mem_append_right _ List.mem_cons_self) ?_
  exact hbuf ▸ isWeightRequest_weightRequest

/-- **A stored weight is read.**  In every interleaving, when the last weight has come in any JSON
text with a member `SumWgtR` and a client asks after it has been stored, the reply shows its low
16 bits as brutto and as netto. -/
theorem stored_weight_is_read
    {before behind : List WeightAct} {payload : List UInt8}
    (hrun : runSteps (weightStep (.atStart testMode)) (.atStart testMode)
      (before ++ .message wgtTopic payload :: behind) = some s)
    (hlast : ∀ a ∈ behind, a.weight = none)
    {depth w : Nat} {v : Json}
    (hpayload : Document depth v payload)
    (hdepth : depth ≤ Cjson.nestingLimit)
    (hlen : payload.length < ibufSize)
    (hitem : v.getObjectItem "SumWgtR" = some (.string (printNat w)))
    (hw : w < 2 ^ 31)
    {r : WeightReply}
    (hr : r ∈ s.replies)
    (hbuf : IsWeightRequest r.buf)
    (hsince : r.since = s.weights.length) :
    r.regs = [0, 0, w % 65536, w % 65536, 0] := by
  have hinv := WeightThreads.inv_run hrun
  have heffect : messageEffect wgtTopic payload = .weight (UInt16.ofInt (atoi (printNat w))) := by
    rw [messageEffect_document hpayload hdepth hlen, hitem]
    rfl
  have hweight : WeightAct.weight (.message wgtTopic payload) =
      some (UInt16.ofInt (atoi (printNat w))) := by
    rw [WeightAct.weight, heffect]
  have hweights : s.weights =
      before.filterMap WeightAct.weight ++ [UInt16.ofInt (atoi (printNat w))] := by
    rw [hinv.weights, List.filterMap_append, List.filterMap_cons_some hweight,
      List.filterMap_eq_nil_iff.mpr hlast]
  obtain ⟨hupto, hshows⟩ := hinv.replies r hr
  obtain ⟨seen, hregs, hfresh, -⟩ := hshows hbuf
  -- no weight has come since the request
  have hseen : ∀ n < 5, seen n = s.weights.length := fun n hn =>
    le_antisymm ((hfresh n hn).2.trans hupto) (hsince ▸ (hfresh n hn).1)
  have hword : ∀ n < 5, (wordNo testMode s.weights n (seen n)).toNat =
      if n = 2 ∨ n = 3 then w % 65536 else 0 := by
    intro n hn
    rw [hseen n hn, hweights, wordNo_last, apply_ite UInt16.toNat, word_atoi hw]
    rfl
  rw [hregs]
  exact List.map_congr_left fun n hn => hword n (List.mem_range.mp hn)

/-- The value of `fiveText`. -/
def fiveJson : Json := .object [(sumWgtR, .string [0x35])]

theorem document_fiveText : Document 1 fiveJson fiveText := by
  have hname : Literal sumWgtR sumWgtR := .of_plain (by decide +kernel)
  have hvalue : Literal [0x35] [0x35] := .of_plain (by decide +kernel)
  exact ⟨[], fiveText, [], .nil, .nil,
    .object (.member hname .nil .nil .nil .nil (.string hvalue)), rfl⟩

/-- The message is stored, and then its words are copied. -/
def wholeCopy : List WeightAct :=
  [.assign, .assign, .assign, .assign, .assign, .request 0 (fun _ => 0) weightRequest, .copy 0,
    .copy 0, .copy 0, .copy 0, .copy 0]

theorem stored_weight_is_read_five :
    ∃ s, runSteps (weightStep (.atStart false)) (.atStart false)
        ([] ++ .message wgtTopic fiveText :: (wholeCopy ++ [.reply 0])) = some s ∧
      ∃ r ∈ s.replies, r.regs = [0, 0, 5 % 65536, 5 % 65536, 0] := by
  obtain ⟨s, x, hrun, hx, hcount, hbuf, hsince⟩ : ∃ s x,
      runSteps (weightStep (.atStart false)) fiveArrived wholeCopy = some s ∧
      s.copying 0 = some x ∧ x.count = 5 ∧ x.buf = weightRequest ∧ x.since = s.weights.length :=
    ⟨_, _, rfl, rfl, rfl, rfl, rfl⟩
  have hwhole : runSteps (weightStep (.atStart false)) (.atStart false)
      ([] ++ .message wgtTopic fiveText :: (wholeCopy ++ [.reply 0])) = _ :=
    fiveText_reply hrun hx hcount hbuf
  have hlast : ∀ a ∈ wholeCopy ++ [.reply 0], a.weight = none := by
    simp [wholeCopy, WeightAct.weight]
  have hname : sumWgtR.map lowerByte = (utf8 "SumWgtR").map lowerByte := by decide +kernel
  have hitem : fiveJson.getObjectItem "SumWgtR" = some (.string (printNat 5)) := by
    simp only [fiveJson, Json.getObjectItem, List.find?, hname, decide_true, Option.map_some]
    rfl
  refine ⟨_, hwhole, _, List.mem_append_right _ List.mem_cons_self, ?_⟩
  exact stored_weight_is_read hwhole hlast document_fiveText (by decide) (by decide) hitem
    (by decide) (List.mem_append_right _ List.mem_cons_self)
    (hbuf ▸ isWeightRequest_weightRequest) hsince

end WeightReads

end Modbus
end MatrixBin
