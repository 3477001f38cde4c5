import MatrixBin.Library.TransitionRuns
import Mathlib.Data.Int.Notation

/-!
# Connecting to a data server (`connect_client` in `connect.c`)

The thread makes a socket, connects it, and looks at `errno` when that fails: for some errors it
ends, for the others it tries again, with a new socket.  Its loop tests `shutdown_flag` and
`connected`; only a connection sets the latter, and then the thread ends at once.

The steps of a run are the test, `socket` and `connect` with what follows; their results are
inputs.  `oneSocket_iff` says for every run when at most one socket of the thread is open, none
is left behind, and none is made after a shutdown was seen.
-/

namespace MatrixBin
namespace Devdrvd

open Library

/-- The values of `errno` that the switch names, and the others. -/
inductive ConnectErrno
  | eacces
  | eperm
  | eaddrnotavail
  | einval
  | enametoolong
  | eafnosupport
  | enotsock
  | efault
  | eloop
  | enoent
  | enotdir
  | erofs
  | eaddrinuse
  | ebadf
  | enetunreach
  | econnrefused
  | enomem
  | other (errno : ℤ)
deriving DecidableEq, Repr

/-- The branches of the switch that end the thread. -/
def ConnectErrno.exits : ConnectErrno → Bool
  | .eacces | .eperm | .eaddrnotavail | .einval | .enametoolong | .eafnosupport => true
  | .enotsock | .efault | .eloop | .enoent | .enotdir | .erofs => true
  | .eaddrinuse | .ebadf | .enetunreach | .econnrefused => false
  | .enomem => true
  | .other _ => false

/-- Where the thread is. -/
inductive ConnectPc
  | test
  | creating
  | connecting
  | ended
  | exited
deriving DecidableEq, Repr

/-- The variables of the thread; the sockets that it has made and not closed; the errors of the
connects that were made with a socket; whether a test has found `shutdown_flag` set, and the
number of sockets made since. -/
structure ConnectThread where
  pc : ConnectPc
  sockfd : Option Nat
  connected : Bool
  errsv : Option ConnectErrno
  created : Nat
  opened : List Nat
  failures : List ConnectErrno
  sawShutdown : Bool
  late : Nat
deriving DecidableEq, Repr

def ConnectThread.start : ConnectThread := ⟨.test, none, false, none, 0, [], [], false, 0⟩

/-- What `connect` reports, and `setsockopt` after a success. -/
inductive ConnectResult
  | connected (keepAlive : Bool)
  | failed (errno : ConnectErrno)
deriving DecidableEq, Repr

inductive ConnectAct
  | loopTest (shutdownFlag : Bool)
  | socket (made : Bool)
  | connect (result : ConnectResult)
deriving DecidableEq, Repr

/-- The switch; behind its other branches the loop goes on. -/
def ConnectThread.switch (s : ConnectThread) (errno : ConnectErrno) : ConnectThread :=
  { s with errsv := some errno, pc := if errno.exits then .ended else .test }

/-- `connect` and what follows; without a socket it fails, whatever the server does. -/
def ConnectThread.afterConnect (s : ConnectThread) (result : ConnectResult) : ConnectThread :=
  match s.sockfd with
  | none => s.switch .ebadf
  | some fd =>
      match result with
      | .connected true => { s with connected := true, pc := .ended }
      | .connected false => { s with opened := s.opened.erase fd, pc := .exited }
      | .failed errno => { s with failures := s.failures ++ [errno] }.switch errno

/-- A step of the thread; a step is refused where the thread is not at it. -/
def connectStep (s : ConnectThread) : ConnectAct → Option ConnectThread
  | .loopTest shutdownFlag =>
      if s.pc = .test then
        -- `while(shutdown_flag != 1 || current->connected != 1)`
        some { s with
          sawShutdown := s.sawShutdown || shutdownFlag
          pc := if !shutdownFlag || !s.connected then .creating else .ended }
      else none
  | .socket made =>
      if s.pc = .creating then
        if made then
          some { s with
            sockfd := some s.created
            created := s.created + 1
            opened := s.created :: s.opened
            late := if s.sawShutdown then s.late + 1 else s.late
            pc := .connecting }
        else some { s with sockfd := none, pc := .connecting }
      else none
  | .connect result => if s.pc = .connecting then some (s.afterConnect result) else none

/-- One socket is open at most, none when the thread is over without a connection, and none was
made after a shutdown was seen. -/
structure OneSocket (s : ConnectThread) : Prop where
  one : s.opened.length ≤ 1
  none_left : s.pc = .ended ∨ s.pc = .exited → s.connected = false → s.opened = []
  no_late : s.late = 0

/-- A socket is the first that `connect` is called for, and made before a shutdown was seen; and
its `connect` does not fail with an error that ends the thread. -/
def OnlyAttempt (s : ConnectThread) : ConnectAct → Prop
  | .loopTest _ => True
  | .socket made => made = true → s.failures = [] ∧ s.sawShutdown = false
  | .connect result => ∀ errno, result = .failed errno → errno.exits = true → s.sockfd = none

/-- The invariant: between two attempts there is an open socket for each failure. -/
structure ConnectThread.Inv (s : ConnectThread) : Prop where
  law : OneSocket s
  waiting : s.pc = .test ∨ s.pc = .creating →
    s.connected = false ∧ s.opened.length = s.failures.length
  connecting : s.pc = .connecting → s.connected = false ∧
    match s.sockfd with
    | none => s.opened.length = s.failures.length
    | some fd => s.opened = [fd] ∧ s.failures = []

section ConnectClient

variable {s s' : ConnectThread}

theorem start_connectInv : ConnectThread.start.Inv where
  law := ⟨Nat.zero_le _, fun _ _ => rfl, rfl⟩
  waiting := fun _ => ⟨rfl, rfl⟩
  connecting := fun h => absurd h (by decide)

theorem ConnectThread.Inv.loopTest
    (h : s.Inv)
    {shutdownFlag : Bool}
    (hstep : connectStep s (.loopTest shutdownFlag) = some s') :
    s'.Inv := by
  rw [connectStep, Option.ite_none_right_eq_some] at hstep
  obtain ⟨hpc, hs'⟩ := hstep
  obtain ⟨hconnected, hopened⟩ := h.waiting (Or.inl hpc)
  rw [hconnected, Bool.not_false, Bool.or_true, if_pos rfl] at hs'
  obtain rfl := Option.some.inj hs'
  refine ⟨⟨h.law.one, fun hend => ?_, h.law.no_late⟩, fun _ => ⟨rfl, hopened⟩, fun hno => ?_⟩
  · exact absurd hend (by simp)
  · exact absurd hno (by simp)

theorem ConnectThread.Inv.socket
    (h : s.Inv)
    {made : Bool}
    (hstep : connectStep s (.socket made) = some s') :
    (OneSocket s' ↔ OnlyAttempt s (.socket made)) ∧ (OnlyAttempt s (.socket made) → s'.Inv) := by
  rw [connectStep, Option.ite_none_right_eq_some] at hstep
  obtain ⟨hpc, hs'⟩ := hstep
  obtain ⟨hconnected, hopened⟩ := h.waiting (Or.inr hpc)
  cases made with
  | false =>
      obtain rfl := Option.some.inj hs'
      have hlaw : OneSocket { s with sockfd := none, pc := .connecting } :=
        ⟨h.law.one, fun hend => absurd hend (by simp), h.law.no_late⟩
      refine ⟨iff_of_true hlaw (fun hno => absurd hno (by simp)), fun _ => ⟨hlaw, ?_, ?_⟩⟩
      · exact fun hno => absurd hno (by simp)
      · exact fun _ => ⟨hconnected, hopened⟩
  | true =>
      rw [if_pos rfl] at hs'
      obtain rfl := Option.some.inj hs'
      have hcond : OnlyAttempt s (.socket true) ↔ s.failures = [] ∧ s.sawShutdown = false := by
        simp [OnlyAttempt]
      rw [hcond]
      constructor
      · constructor
        · intro hlaw
          have hone := hlaw.one
          have hlate := hlaw.no_late
          simp only [List.length_cons] at hone
          refine ⟨List.length_eq_zero_iff.mp (by omega), ?_⟩
          by_contra hsaw
          rw [if_pos (by simpa using hsaw)] at hlate
          exact absurd hlate (Nat.succ_ne_zero _)
        · rintro ⟨hfailures, hsaw⟩
          refine ⟨?_, fun hend => absurd hend (by simp), ?_⟩
          · rw [List.length_cons, hopened, hfailures]
            exact Nat.le_refl 1
          · simp only [hsaw]
            exact h.law.no_late
      · rintro ⟨hfailures, hsaw⟩
        have hnone : s.opened = [] := by
          rw [← List.length_eq_zero_iff, hopened, hfailures]
          rfl
        refine ⟨⟨?_, fun hend => absurd hend (by simp), ?_⟩, fun hno => absurd hno (by simp), ?_⟩
        · rw [List.length_cons, hnone]
          exact Nat.le_refl 1
        · simp only [hsaw]
          exact h.law.no_late
        · exact fun _ => ⟨hconnected, by simp [hnone], hfailures⟩

/-- When the thread is over, the invariant is the law. -/
theorem OneSocket.inv_of_over
    (h : OneSocket s)
    (hpc : s.pc = .ended ∨ s.pc = .exited) :
    s.Inv := by
  refine ⟨h, fun hwaiting => ?_, fun hconnecting => ?_⟩
  · rcases hpc with hpc | hpc <;> simp [hpc] at hwaiting
  · rcases hpc with hpc | hpc <;> simp [hpc] at hconnecting

/-- Behind the switch the thread is over, or at its test. -/
theorem switch_oneSocket_iff
    (hconnected : s.connected = false)
    (hone : s.opened.length ≤ 1)
    (hlate : s.late = 0)
    (errno : ConnectErrno) :
    OneSocket (s.switch errno) ↔ (errno.exits = true → s.opened = []) := by
  constructor
  · intro hlaw hexits
    refine hlaw.none_left (Or.inl ?_) hconnected
    rw [ConnectThread.switch, if_pos hexits]
  · intro hcond
    refine ⟨hone, fun hend _ => ?_, hlate⟩
    by_cases hexits : errno.exits = true
    · exact hcond hexits
    · rw [ConnectThread.switch, if_neg hexits] at hend
      exact absurd hend (by simp)

/-- A connect without a socket: the thread tries again. -/
theorem ConnectThread.Inv.connect_none
    (h : s.Inv)
    (hpc : s.pc = .connecting)
    (hsockfd : s.sockfd = none) :
    (s.switch .ebadf).Inv := by
  obtain ⟨hconnected, hopened⟩ := h.connecting hpc
  rw [hsockfd] at hopened
  have hlaw : OneSocket (s.switch .ebadf) :=
    (switch_oneSocket_iff hconnected h.law.one h.law.no_late _).mpr fun hno =>
      absurd hno (by decide)
  refine ⟨hlaw, fun _ => ⟨hconnected, hopened⟩, fun hno => ?_⟩
  exact absurd hno (by simp [ConnectThread.switch, ConnectErrno.exits])

/-- A connect that fails on a socket. -/
theorem ConnectThread.Inv.connect_failed
    (h : s.Inv)
    (hpc : s.pc = .connecting)
    {fd : Nat}
    (hsockfd : s.sockfd = some fd)
    (errno : ConnectErrno) :
    let s' := { s with failures := s.failures ++ [errno] }.switch errno
    (OneSocket s' ↔ errno.exits = false) ∧ (errno.exits = false → s'.Inv) := by
  intro s'
  obtain ⟨hconnected, hsocket⟩ := h.connecting hpc
  rw [hsockfd] at hsocket
  obtain ⟨hopened, hfailures⟩ := hsocket
  have hlaw : OneSocket s' ↔ errno.exits = false := by
    rw [switch_oneSocket_iff (s := { s with failures := s.failures ++ [errno] })
      hconnected h.law.one h.law.no_late]
    simp [hopened]
  refine ⟨hlaw, fun hgoes => ⟨hlaw.mpr hgoes, fun _ => ⟨hconnected, ?_⟩, fun hno => ?_⟩⟩
  · simp [s', ConnectThread.switch, hopened, hfailures]
  · simp only [s', ConnectThread.switch, hgoes] at hno
    exact absurd hno (by simp)

/-- What follows a connect on a socket. -/
theorem afterConnect_of_some
    {fd : Nat}
    (hsockfd : s.sockfd = some fd)
    (result : ConnectResult) :
    s.afterConnect result =
      match result with
      | .connected true => { s with connected := true, pc := .ended }
      | .connected false => { s with opened := s.opened.erase fd, pc := .exited }
      | .failed errno => { s with failures := s.failures ++ [errno] }.switch errno := by
  rw [ConnectThread.afterConnect]
  split
  · rename_i hnone
    exact absurd (hnone.symm.trans hsockfd) (by simp)
  · rename_i fd' hfd
    obtain rfl := Option.some.inj (hfd.symm.trans hsockfd)
    rfl

theorem ConnectThread.Inv.connect
    (h : s.Inv)
    {result : ConnectResult}
    (hstep : connectStep s (.connect result) = some s') :
    (OneSocket s' ↔ OnlyAttempt s (.connect result)) ∧
      (OnlyAttempt s (.connect result) → s'.Inv) := by
  rw [connectStep, Option.ite_none_right_eq_some] at hstep
  obtain ⟨hpc, hs'⟩ := hstep
  obtain rfl := Option.some.inj hs'
  cases hsockfd : s.sockfd with
  | none =>
      have hafter : s.afterConnect result = s.switch .ebadf := by
        rw [ConnectThread.afterConnect, hsockfd]
      have hinv := h.connect_none hpc hsockfd
      rw [hafter]
      exact ⟨iff_of_true hinv.law (fun _ _ _ => hsockfd), fun _ => hinv⟩
  | some fd =>
      obtain ⟨-, hsocket⟩ := h.connecting hpc
      rw [hsockfd] at hsocket
      rw [afterConnect_of_some hsockfd]
      match result with
      | .connected true =>
          have hlaw : OneSocket { s with connected := true, pc := .ended } :=
            ⟨h.law.one, fun _ hno => absurd hno (by simp), h.law.no_late⟩
          exact ⟨iff_of_true hlaw (fun _ hno => absurd hno (by simp)),
            fun _ => hlaw.inv_of_over (Or.inl rfl)⟩
      | .connected false =>
          have hclosed : s.opened.erase fd = [] := by
            rw [hsocket.1, List.erase_cons_head]
          have hlaw : OneSocket { s with opened := s.opened.erase fd, pc := .exited } :=
            ⟨by simp [hclosed], fun _ _ => hclosed, h.law.no_late⟩
          exact ⟨iff_of_true hlaw (fun _ hno => absurd hno (by simp)),
            fun _ => hlaw.inv_of_over (Or.inr rfl)⟩
      | .failed errno =>
          have hcond : OnlyAttempt s (.connect (.failed errno)) ↔ errno.exits = false := by
            simp [OnlyAttempt, hsockfd]
          rw [hcond]
          exact h.connect_failed hpc hsockfd errno

/-- One step: what it does to the law, and when the invariant survives. -/
theorem ConnectThread.Inv.step
    (h : s.Inv)
    {act : ConnectAct}
    (hstep : connectStep s act = some s') :
    (OneSocket s' ↔ OnlyAttempt s act) ∧ (OnlyAttempt s act → s'.Inv) := by
  cases act with
  | loopTest shutdownFlag =>
      have hinv := h.loopTest hstep
      exact ⟨iff_of_true hinv.law trivial, fun _ => hinv⟩
  | socket made => exact h.socket hstep
  | connect result => exact h.connect hstep

/-- **The sockets of a connecting thread.**  For every sequence of tests, sockets and results,
one socket is open at most, none is left behind and none is made after a shutdown was seen
exactly if every socket belongs to the only attempt of the thread. -/
theorem oneSocket_iff
    (acts : List ConnectAct) :
    HoldsAlong connectStep OneSocket ConnectThread.start acts ↔
      MeetsAlong connectStep OnlyAttempt ConnectThread.start acts :=
  holdsAlong_iff_meetsAlong (fun _ h => h.law) (fun _ _ _ h hstep => (h.step hstep).1)
    (fun _ _ _ h hcond hstep => (h.step hstep).2 hcond) start_connectInv acts

/-- The server refuses the connection, and the thread tries again. -/
theorem refused_leaves_socket :
    ¬ HoldsAlong connectStep OneSocket ConnectThread.start
      [.loopTest false, .socket true, .connect (.failed .econnrefused), .loopTest false,
        .socket true] := by
  intro h
  have hlast := h.last (t := ⟨.connecting, some 1, false, some .econnrefused, 2, [1, 0],
    [.econnrefused], false, 0⟩) (by decide)
  exact absurd hlast.one (by decide)

end ConnectClient

end Devdrvd
end MatrixBin
