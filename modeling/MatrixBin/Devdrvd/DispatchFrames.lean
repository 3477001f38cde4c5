import MatrixBin.Devdrvd.Dispatch
import Mathlib.Data.Fintype.Basic

/-!
# Frames of several servers in one stream (`devdrvd.c`, `control_daemon.c`)

The main loop forwards pieces of the streams as it reads them, without regard to where a frame
ends.  A client that registers inside a frame misses its beginning, and a piece of another
server that is forwarded inside a frame cuts it.  Where neither happens every client receives
whole frames, each server's in order and without a gap, as long as all writes are complete and
the client does not make `packet_feed` answer.
-/

namespace MatrixBin
namespace Devdrvd

open Library

section Hubs

variable {ι : Type} {pipeSize socketSize : Nat}

/-- All writes are complete. -/
def WritesComplete (s : Hub ι pipeSize socketSize) : HubAct ι → Prop
  | .write result => s.PipeTakes result
  | .feedWrite i result => ∀ c ∈ s.pool i, result = .wrote c.data.length
  | .answer _ result => result = .wrote msgError.length
  | _ => True

instance (s : Hub ι pipeSize socketSize) : (a : HubAct ι) → Decidable (WritesComplete s a)
  | .write result => inferInstanceAs (Decidable (s.PipeTakes result))
  | .feedWrite i result =>
      inferInstanceAs (Decidable (∀ c ∈ s.pool i, result = .wrote c.data.length))
  | .answer _ result => inferInstanceAs (Decidable (result = .wrote msgError.length))
  | .select .. | .lost .. | .read | .register .. | .feedRead .. | .quit .. | .clientSends ..
  | .clientTakes .. => isTrue trivial

/-- A slot is taken. -/
def Hub.Occupied (s : Hub ι pipeSize socketSize) : Prop :=
  ∃ i, i < devdrvdMaxClients ∧ (s.pool i).isSome = true

instance (s : Hub ι pipeSize socketSize) : Decidable s.Occupied :=
  inferInstanceAs (Decidable (∃ i, i < devdrvdMaxClients ∧ (s.pool i).isSome = true))

/-- The condition on a step: a client registers while no server is inside a frame, a server is
served while no other one is, unless there is no client, and clients send nothing. -/
def KeptApart [DecidableEq ι] (frames : ι → List (List UInt8)) (s : Hub ι pipeSize socketSize) :
    HubAct ι → Prop
  | .select server _ =>
      s.Occupied → ∀ t, t ≠ server → Between (frames t) (share t s.log)
  | .register i => ∀ t, Between (frames t) (share t (s.log.take (s.missed i)))
  | .clientSends .. => False
  | _ => True

instance [DecidableEq ι] [Fintype ι] (frames : ι → List (List UInt8))
    (s : Hub ι pipeSize socketSize) : (a : HubAct ι) → Decidable (KeptApart frames s a)
  | .select server _ =>
      inferInstanceAs
        (Decidable (s.Occupied → ∀ t, t ≠ server → Between (frames t) (share t s.log)))
  | .register i =>
      inferInstanceAs
        (Decidable (∀ t, Between (frames t) (share t (s.log.take (s.missed i)))))
  | .clientSends .. => isFalse id
  | .lost .. | .read | .write .. | .feedRead .. | .feedWrite .. | .answer .. | .quit ..
  | .clientTakes .. => isTrue trivial

/-- `ahead` are the frames that the servers had not begun when a client registered. -/
def StartsAt [DecidableEq ι] (frames : ι → List (List UInt8)) (log : List (ι × List UInt8)) (since : Nat)
    (ahead : ι → List (List UInt8)) : Prop :=
  ∀ t, ∃ before, frames t = before ++ ahead t ∧ share t (log.take since) = before.flatten

/-- A client receives whole frames from its registration on, and nothing is lost on the way to
a client that is registered. -/
structure FrameLaw [DecidableEq ι] (frames : ι → List (List UInt8))
    (s : Hub ι pipeSize socketSize) : Prop where
  whole : ∀ c, s.Has c →
    ∃ ahead, StartsAt frames s.log c.since ahead ∧ Interleaves ahead c.sent
  complete : ∀ i c, s.pool i = some c →
    c.flow ++ joined (s.owed i) = joined (s.log.drop c.since)

/-! ### What survives the steps -/

/-- The server that the main loop is busy with. -/
def MainPc.server : MainPc ι → Option ι
  | .selecting => none
  | .serving server _ => some server
  | .dispatching server _ _ _ => some server

structure Framed [DecidableEq ι] (frames : ι → List (List UInt8))
    (s : Hub ι pipeSize socketSize) : Prop where
  reads : ∀ t, share t s.log ++ s.unread t <+: (frames t).flatten
  apart : ∀ server ∈ s.main.server, ∀ i c, s.pool i = some c →
    ∀ t, t ≠ server → Between (frames t) (share t s.log)
  woven : ∀ i c, s.pool i = some c →
    ∃ ahead, StartsAt frames s.log c.since ahead ∧ Woven ahead (s.log.drop c.since)
  gone : ∀ c ∈ s.gone,
    ∃ ahead, StartsAt frames s.log c.since ahead ∧ Interleaves ahead c.sent

/-- What a step does that reads nothing and registers nobody. -/
structure Calm (s e : Hub ι pipeSize socketSize) : Prop where
  log : e.log = s.log
  unread : ∀ t, e.unread t <+: s.unread t
  server : ∀ server ∈ e.main.server, server ∈ s.main.server
  pool : ∀ i c', e.pool i = some c' → ∃ c, s.pool i = some c ∧ c'.since = c.since
  gone : ∀ c' ∈ e.gone,
    c' ∈ s.gone ∨ ∃ i c, s.pool i = some c ∧ c'.since = c.since ∧ c'.sent = c.sent

section Steps

variable {frames : ι → List (List UInt8)} {s e : Hub ι pipeSize socketSize} {i : Nat}
  {c c' : Feed pipeSize socketSize}

theorem calm_setFeed
    (hc : s.pool i = some c)
    (hsince : c'.since = c.since) :
    Calm s (s.setFeed i c') where
  log := rfl
  unread := fun _ => List.prefix_rfl
  server := fun _ h => h
  pool := by
    intro j d hd
    rcases entry_of_update hd with ⟨rfl, heq⟩ | ⟨-, hd⟩
    · obtain rfl := Option.some.inj heq
      exact ⟨c, hc, hsince⟩
    · exact ⟨d, hd, rfl⟩
  gone := fun _ h => Or.inl h

theorem calm_unregister
    (hc : s.pool i = some c)
    (hsince : c'.since = c.since)
    (hsent : c'.sent = c.sent) :
    Calm s (s.unregister i c') where
  log := rfl
  unread := fun _ => List.prefix_rfl
  server := fun _ h => h
  pool := by
    intro j d hd
    rcases entry_of_update hd with ⟨-, heq⟩ | ⟨-, hd⟩
    · cases heq
    · exact ⟨d, hd, rfl⟩
  gone := by
    intro d hd
    rcases List.mem_append.mp hd with hd | hd
    · exact Or.inl hd
    · obtain rfl := List.mem_singleton.mp hd
      exact Or.inr ⟨i, c, hc, hsince, hsent⟩

theorem calm_feedStep
    {whole : Prop}
    (hstep : FeedStep s i whole e) :
    Calm s e := by
  cases hstep with
  | moves hc hsince _ => exact calm_setFeed hc hsince
  | leaves hc hsince hsent => exact calm_unregister hc hsince hsent

theorem server_afterSlot
    {server t : ι}
    {len : Nat}
    {piece : List UInt8}
    (h : t ∈ (MainPc.afterSlot server len piece i).server) :
    t = server := by
  unfold MainPc.afterSlot at h
  split_ifs at h
  · exact (Option.some.inj h).symm
  · cases h
  · exact (Option.some.inj h).symm

theorem owed_cases
    (s : Hub ι pipeSize socketSize)
    (i : Nat) :
    s.owed i = [] ∨ ∃ server piece, s.main.server = some server ∧ s.owed i = [(server, piece)] := by
  unfold Hub.owed
  split
  · rename_i server len piece j hmain
    split_ifs
    · exact Or.inr ⟨server, piece, by rw [hmain]; rfl, rfl⟩
    · exact Or.inl rfl
  · exact Or.inl rfl

variable [DecidableEq ι]

/-- The main loop writes to a slot. -/
theorem calm_write
    {result : WriteResult}
    (hstep : hubStep s (.write result) = some e) :
    Calm s e := by
  simp only [hubStep] at hstep
  split at hstep
  · rename_i server len piece i hmain
    have hserver : ∀ t ∈ (MainPc.afterSlot server len piece i).server, t ∈ s.main.server := by
      intro t ht
      rw [server_afterSlot ht, hmain]
      rfl
    split at hstep
    · obtain rfl := Option.some.inj hstep
      exact ⟨rfl, fun _ => List.prefix_rfl, hserver, fun j d hd => ⟨d, hd, rfl⟩,
        fun _ h => Or.inl h⟩
    · rename_i c hc
      obtain ⟨pipe, -, rfl⟩ := Option.map_eq_some_iff.mp hstep
      have hcalm : Calm s (s.setFeed i { c with pipe }) := calm_setFeed hc rfl
      exact ⟨rfl, hcalm.unread, hserver, hcalm.pool, hcalm.gone⟩
  · cases hstep

theorem calm_lost
    {server : ι}
    (hstep : hubStep s (.lost server) = some e) :
    Calm s e := by
  have hunread : ∀ t, Function.update s.unread server [] t <+: s.unread t := by
    intro t
    by_cases ht : t = server
    · rw [ht, Function.update_self]
      exact List.nil_prefix
    · rw [Function.update_of_ne ht]
  simp only [hubStep] at hstep
  split at hstep
  · obtain rfl := Option.some.inj hstep
    exact ⟨rfl, hunread, fun _ h => h, fun j d hd => ⟨d, hd, rfl⟩, fun _ h => Or.inl h⟩
  · split_ifs at hstep
    obtain rfl := Option.some.inj hstep
    exact ⟨rfl, hunread, by simp [MainPc.server], fun j d hd => ⟨d, hd, rfl⟩,
      fun _ h => Or.inl h⟩
  · cases hstep

/-- A calm step keeps the frames whole: a client that leaves has a first part of what it was
to get. -/
theorem Framed.calm
    (h : Framed frames s)
    (hfed : Fed s)
    (hstep : Calm s e) :
    Framed frames e where
  reads := by
    intro t
    rw [hstep.log]
    exact ((List.prefix_append_right_inj _).mpr (hstep.unread t)).trans (h.reads t)
  apart := by
    intro server hserver i c' hc'
    obtain ⟨c, hc, -⟩ := hstep.pool i c' hc'
    rw [hstep.log]
    exact h.apart server (hstep.server server hserver) i c hc
  woven := by
    intro i c' hc'
    obtain ⟨c, hc, hsince⟩ := hstep.pool i c' hc'
    rw [hstep.log, hsince]
    exact h.woven i c hc
  gone := by
    intro c' hc'
    rw [hstep.log]
    rcases hstep.gone c' hc' with hgone | ⟨i, c, hc, hsince, hsent⟩
    · exact h.gone c' hgone
    · obtain ⟨ahead, hstarts, hwoven⟩ := h.woven i c hc
      rw [hsince, hsent]
      exact ⟨ahead, hstarts, hwoven.interleaves.of_prefix (hfed.pool i c hc).received.sent⟩

theorem StartsAt.append
    {log : List (ι × List UInt8)}
    {since : Nat}
    {ahead : ι → List (List UInt8)}
    (h : StartsAt frames log since ahead)
    (hsince : since ≤ log.length)
    (later : List (ι × List UInt8)) :
    StartsAt frames (log ++ later) since ahead := by
  intro t
  rw [List.take_append_of_le_length hsince]
  exact h t

/-- Where the log ends on a border, so do the pieces since the registration. -/
theorem StartsAt.between
    {log : List (ι × List UInt8)}
    {since : Nat}
    {ahead : ι → List (List UInt8)}
    (h : StartsAt frames log since ahead)
    {t : ι}
    (hlog : Between (frames t) (share t log)) :
    Between (ahead t) (share t (log.drop since)) := by
  obtain ⟨before, hframes, hbefore⟩ := h t
  rw [← List.take_append_drop since log, share_append, hframes, hbefore] at hlog
  exact hlog.of_append

theorem StartsAt.reads
    {log : List (ι × List UInt8)}
    {since : Nat}
    {ahead : ι → List (List UInt8)}
    (h : StartsAt frames log since ahead)
    {t : ι}
    {w : List UInt8}
    (hlog : share t log ++ w <+: (frames t).flatten) :
    share t (log.drop since) ++ w <+: (ahead t).flatten := by
  obtain ⟨before, hframes, hbefore⟩ := h t
  rw [← List.take_append_drop since log, share_append, hframes, hbefore, List.flatten_append,
    List.append_assoc] at hlog
  exact (List.prefix_append_right_inj _).mp hlog

/-- A piece is read while no other server is inside a frame. -/
theorem Framed.read
    (h : Framed frames s)
    (hfed : Fed s)
    {server : ι}
    {n : Nat}
    (hserver : s.main.server = some server)
    (hlog : e.log = s.log ++ [(server, (s.unread server).take n)])
    (hunread : e.unread = Function.update s.unread server ((s.unread server).drop n))
    (hmain : e.main.server = some server)
    (hpool : e.pool = s.pool)
    (hgone : e.gone = s.gone) :
    Framed frames e := by
  have hother : ∀ t, t ≠ server → share t e.log = share t s.log := by
    intro t ht
    rw [hlog, share_append, share_singleton, if_neg (Ne.symm ht), List.append_nil]
  constructor
  · intro t
    have hreads := h.reads t
    by_cases ht : t = server
    · subst ht
      rw [hlog, hunread, share_append, share_singleton, if_pos rfl, Function.update_self,
        List.append_assoc, List.take_append_drop]
      exact hreads
    · rw [hother t ht, hunread, Function.update_of_ne ht]
      exact hreads
  · intro server' hserver' i c hc t ht
    obtain rfl : server = server' := Option.some.inj (hmain.symm.trans hserver')
    rw [hother t ht]
    exact h.apart server hserver i c (by rw [← hpool, hc]) t ht
  · intro i c hc
    have hc : s.pool i = some c := by rw [← hpool, hc]
    have hsince := (hfed.pool i c hc).since_le
    obtain ⟨ahead, hstarts, hwoven⟩ := h.woven i c hc
    rw [hlog, List.drop_append_of_le_length hsince]
    refine ⟨ahead, hstarts.append hsince _, hwoven.snoc ?_ ?_⟩
    · exact fun t ht => hstarts.between (h.apart server hserver i c hc t ht)
    · refine hstarts.reads (List.IsPrefix.trans ?_ (h.reads server))
      exact (List.prefix_append_right_inj _).mpr (List.take_prefix _ _)
  · intro c hc
    have hc : c ∈ s.gone := by rw [← hgone]; exact hc
    obtain ⟨ahead, hstarts, hwhole⟩ := h.gone c hc
    rw [hlog]
    exact ⟨ahead, hstarts.append (hfed.gone c hc).since_le _, hwhole⟩

/-- A client registers while no server is inside a frame. -/
theorem Framed.register
    (h : Framed frames s)
    (hfed : Fed s)
    (hi : i < devdrvdMaxClients)
    (hborder : ∀ t, Between (frames t) (share t (s.log.take (s.missed i)))) :
    Framed frames (s.setFeed i (.registered (s.missed i))) := by
  have hdrop := hfed.drop_missed hi
  have hsplit : s.log.take (s.missed i) ++ s.owed i = s.log := by
    rw [← hdrop, List.take_append_drop]
  constructor
  · exact h.reads
  · intro server hserver j c hc t ht
    rcases entry_of_update hc with ⟨-, -⟩ | ⟨-, hc⟩
    · -- the piece owed to the new client belongs to the server being served
      have hnone : share t (s.owed i) = [] := by
        rcases owed_cases s i with howed | ⟨server', piece, hserver', howed⟩
        · rw [howed, share_nil]
        · obtain rfl : server' = server := Option.some.inj (hserver'.symm.trans hserver)
          rw [howed, share_singleton, if_neg (Ne.symm ht)]
      have hlog : share t s.log = share t (s.log.take (s.missed i)) := by
        rw [← congrArg (share t) hsplit, share_append, hnone, List.append_nil]
      have hborder := hborder t
      rw [← hlog] at hborder
      exact hborder
    · exact h.apart server hserver j c hc t ht
  · intro j c hc
    rcases entry_of_update hc with ⟨rfl, heq⟩ | ⟨-, hc⟩
    · obtain rfl := Option.some.inj heq
      choose done hdone heq using hborder
      choose ahead hahead using fun t => (List.mem_inits _ _).mp (hdone t)
      have hstarts : StartsAt frames s.log (s.missed j) ahead :=
        fun t => ⟨done t, (hahead t).symm, heq t⟩
      have hwoven : Woven ahead (s.owed j) := by
        rcases owed_cases s j with howed | ⟨server, piece, -, howed⟩
        · rw [howed]
          exact woven_nil ahead
        · have hpiece := hstarts.reads (h.reads server)
          rw [hdrop, howed, share_singleton, if_pos rfl] at hpiece
          rw [howed]
          exact (woven_nil ahead).snoc (fun t _ => between_nil _)
            ((List.prefix_append _ _).trans hpiece)
      rw [← hdrop] at hwoven
      exact ⟨ahead, hstarts, hwoven⟩
    · exact h.woven j c hc
  · exact h.gone

theorem framed_initial :
    Framed frames (Hub.initial frames : Hub ι pipeSize socketSize) where
  reads := fun t => by simp [Hub.initial]
  apart := by simp [Hub.initial, MainPc.server]
  woven := by simp [Hub.initial]
  gone := by simp [Hub.initial]

theorem writesWhole_of_complete
    {a : HubAct ι}
    (hcomplete : WritesComplete s a)
    (hapart : KeptApart frames s a) :
    WritesWhole s a := by
  cases a with
  | write result => exact hcomplete
  | feedWrite i result => exact fun c hc => Or.inr (hcomplete c hc)
  | clientSends i bytes => exact hapart
  | _ => trivial

theorem hubStep_framed
    (h : Framed frames s)
    (hfed : Fed s)
    {a : HubAct ι}
    (hapart : KeptApart frames s a)
    (hstep : hubStep s a = some e) :
    Framed frames e := by
  cases a with
  | select server len =>
      simp only [hubStep] at hstep
      split_ifs at hstep
      obtain rfl := Option.some.inj hstep
      refine ⟨h.reads, ?_, h.woven, h.gone⟩
      intro server' hserver i c hc
      obtain rfl : server = server' := Option.some.inj hserver
      have hi := (hfed.pool i c hc).in_range
      exact hapart ⟨i, hi, Option.isSome_iff_exists.mpr ⟨c, hc⟩⟩
  | lost server => exact h.calm hfed (calm_lost hstep)
  | read =>
      simp only [hubStep] at hstep
      split at hstep
      · rename_i server len hmain
        obtain rfl := Option.some.inj hstep
        exact h.read hfed (by rw [hmain]; rfl) rfl rfl rfl rfl rfl
      · cases hstep
  | write result => exact h.calm hfed (calm_write hstep)
  | register i =>
      simp only [hubStep] at hstep
      split_ifs at hstep with hfree
      obtain rfl := Option.some.inj hstep
      exact h.register hfed hfree.1 hapart
  | feedRead i len => exact h.calm hfed (calm_feedStep (feedStep_of_hubStep rfl hstep))
  | feedWrite i result => exact h.calm hfed (calm_feedStep (feedStep_of_hubStep rfl hstep))
  | answer i result => exact h.calm hfed (calm_feedStep (feedStep_of_hubStep rfl hstep))
  | quit i => exact h.calm hfed (calm_feedStep (feedStep_of_hubStep rfl hstep))
  | clientSends i bytes => exact h.calm hfed (calm_feedStep (feedStep_of_hubStep rfl hstep))
  | clientTakes i n => exact h.calm hfed (calm_feedStep (feedStep_of_hubStep rfl hstep))

theorem Framed.law
    (h : Framed frames s)
    (hfed : Fed s) :
    FrameLaw frames s where
  whole := by
    rintro c (⟨i, hc⟩ | hgone)
    · obtain ⟨ahead, hstarts, hwoven⟩ := h.woven i c hc
      exact ⟨ahead, hstarts, hwoven.interleaves.of_prefix (hfed.pool i c hc).received.sent⟩
    · exact h.gone c hgone
  complete := fun i c hc => (hfed.pool i c hc).flow

/-- In a run with complete writes that keeps the frames apart, every client receives whole
frames, each server's once and in order. -/
theorem frameLaw_of_keptApart
    (hs : ReachedUnder hubStep (fun s a => WritesComplete s a ∧ KeptApart frames s a)
      (Hub.initial frames) s) :
    FrameLaw frames s := by
  let Inv (t : Hub ι pipeSize socketSize) : Prop := Framed frames t ∧ Fed t
  have hinit : Inv (Hub.initial frames) := ⟨framed_initial, fed_initial frames⟩
  have hinv : Inv s := hs.invariant hinit fun t a t' ht hC hstep =>
    ⟨hubStep_framed ht.1 ht.2 hC.2 hstep,
      hubStep_fed ht.2 (writesWhole_of_complete hC.1 hC.2) hstep⟩
  exact hinv.1.law hinv.2

end Steps

end Hubs

/-- Two servers that send one frame each. -/
def twoServers : Bool → List (List UInt8)
  | false => [[0x02, 0x41, 0x0d]]
  | true => [[0x02, 0x42, 0x0d]]

/-- A frame is read in two pieces, then the other server's frame. -/
def frameByFrame : List (HubAct Bool) :=
  .register 0 :: onePiece false 1 (.wrote 1) ++ onePiece false 2 (.wrote 2) ++
    onePiece true 3 (.wrote 3) ++ [.feedRead 0 6, .feedWrite 0 (.wrote 6)]

theorem frameLaw_frameByFrame :
    ∃ (s : Hub Bool 8 8) (c : Feed 8 8), s.pool 0 = some c ∧
      c.sent = [0x02, 0x41, 0x0d, 0x02, 0x42, 0x0d] ∧ FrameLaw twoServers s := by
  have hrun :
      (runSteps (guarded hubStep fun s a => WritesComplete s a ∧ KeptApart twoServers s a)
          (Hub.initial twoServers : Hub Bool 8 8) frameByFrame).map
        (fun s => (s.pool 0).map Feed.sent) =
      some (some [0x02, 0x41, 0x0d, 0x02, 0x42, 0x0d]) := by
    decide +kernel
  obtain ⟨s, hs, hpool⟩ := Option.map_eq_some_iff.mp hrun
  obtain ⟨c, hc, hsent⟩ := Option.map_eq_some_iff.mp hpool
  exact ⟨s, c, hc, hsent, frameLaw_of_keptApart (ReachedUnder.of_runSteps _ .start hs)⟩

/-- The other server's frame is read between the two pieces. -/
def frameCut : List (HubAct Bool) :=
  .register 0 :: onePiece false 1 (.wrote 1) ++ onePiece true 3 (.wrote 3) ++
    onePiece false 2 (.wrote 2) ++ [.feedRead 0 6, .feedWrite 0 (.wrote 6)]

theorem frame_cut :
    ¬ ∀ s : Hub Bool 8 8,
      ReachedUnder hubStep WritesComplete (Hub.initial twoServers) s → FrameLaw twoServers s := by
  intro hall
  have hrun :
      (runSteps (guarded hubStep WritesComplete)
          (Hub.initial twoServers : Hub Bool 8 8) frameCut).map
        (fun s => (s.pool 0).map Feed.sent) =
      some (some [0x02, 0x02, 0x42, 0x0d, 0x41, 0x0d]) := by
    decide +kernel
  obtain ⟨s, hs, hpool⟩ := Option.map_eq_some_iff.mp hrun
  obtain ⟨c, hc, hsent⟩ := Option.map_eq_some_iff.mp hpool
  have hlaw := hall s (ReachedUnder.of_runSteps _ .start hs)
  obtain ⟨ahead, hstarts, merged, part, hw, hmerged, hpart⟩ := hlaw.whole c (Or.inl ⟨0, hc⟩)
  rw [hsent] at hw
  -- every frame has its own second byte, and three bytes
  have hframe : ∀ t, ∀ frame ∈ ahead t, ∃ x, x ≠ 0x02 ∧ frame = [0x02, x, 0x0d] := by
    intro t frame hmem
    obtain ⟨before, hframes, -⟩ := hstarts t
    have hmem : frame ∈ twoServers t := by
      rw [hframes]
      exact List.mem_append_right _ hmem
    cases t with
    | false => exact ⟨0x41, by decide, List.mem_singleton.mp hmem⟩
    | true => exact ⟨0x42, by decide, List.mem_singleton.mp hmem⟩
  cases merged with
  | nil =>
      rw [joined_nil, List.nil_append] at hw
      rcases hpart with rfl | ⟨t, frame, hinner, hcut, -⟩
      · cases hw
      · obtain ⟨x, -, rfl⟩ := hframe t frame (hinner.subset (by simp))
        have hlength := hcut.length_le
        rw [← hw] at hlength
        simp at hlength
  | cons piece rest =>
      obtain ⟨t, frame⟩ := piece
      have hmem : frame ∈ ofSource t ((t, frame) :: rest) := by simp [ofSource]
      obtain ⟨x, hx, rfl⟩ := hframe t frame ((hmerged t).subset hmem)
      simp only [joined, List.map_cons, List.flatten_cons, List.cons_append, List.cons.injEq] at hw
      exact hx hw.2.1.symm

end Devdrvd
end MatrixBin
