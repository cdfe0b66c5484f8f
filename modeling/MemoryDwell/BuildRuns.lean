import MemoryDwell.DispatchAgreement
import MemoryDwell.EventLog
import MemoryDwell.StateRelations

/-! # Runs of the two builds

The builds differ on single messages, and a difference in the error counter stays until
the next Reset. The runs below are those of the whole application: whatever the inputs,
both builds do the same to the tables and send the same dwell packets, and the difference
is the number of errors that only the EDS build has counted. -/
namespace BuildRuns

open DwellData DwellUtils DwellTbl DwellPkts DwellCmds DwellApp DwellDispatch DwellRuns
open DwellTraces CommandAccounting ReadResults EdsDispatch DispatchAgreement TransitionRuns
open Lockstep StateRelations FueledLoop
open DwellStreams (manageLoop_cases)
open EventLog (failedRead fetched_none)

variable {cfg : Config}

/-- The application of the EDS build. The generated function is not given a NULL message. -/
def edsExec (lib : EdsLibrary cfg) (fuel : ℕ) (s : State cfg) (k : Services cfg × Input cfg) :
    Option (Label cfg × State cfg) :=
  match k.2 with
  | .manage _ _ => exec fuel s k
  | .message none => none
  | .message (some msg) =>
    (EdsDispatch.processCommandPacket lib k.1 fuel msg s).map fun (s, actions) =>
      (⟨k.1, k.2, actions⟩, s)

/-- The state of the EDS build, which has counted `d` errors more. -/
structure Ahead (d : ℕ) (s s' : State cfg) : Prop where
  cmdCounter : s'.cmdCounter = s.cmdCounter
  dwellTables : s'.dwellTables = s.dwellTables
  dwellPkt : s'.dwellPkt = s.dwellPkt
  tblBuffer : s'.tblBuffer = s.tblBuffer
  errCounter : s'.errCounter = (s.errCounter + d) % 256

/-- The error of a handler, or a message without one that is no command. -/
def CountedAgain (l : Label cfg) : Prop :=
  match l.input with
  | .manage _ _ | .message none => False
  | .message (some msg) =>
    match msg.msgId with
    | .wakeup => msg.size = bareMsgLength cfg → l.actions.filterMap failedRead ≠ []
    | .sendHk => msg.size ≠ bareMsgLength cfg
    | .cmd => Dispatchable msg ∧ ArgumentsOk l.services msg ∧
        ∃ t, Addresses msg t ∧ ¬ Granted l.services t
    | .other _ => True

def Resets (l : Label cfg) : Prop :=
  match l.input with
  | .manage _ _ | .message none => False
  | .message (some msg) => msg.msgId = .cmd ∧ Dispatchable msg ∧ msg.fcnCode = resetCntrsCC

open Classical in
noncomputable def aheadAfter (d : ℕ) (l : Label cfg) : ℕ :=
  if Resets l then 0 else if CountedAgain l then d + 1 else d

def shownAhead (d : ℕ) : Action cfg → Action cfg
  | .sendHk p => .sendHk { p with invalidCmdCntr := (p.invalidCmdCntr + d) % 256 }
  | a => a

def labelAhead (d : ℕ) (l : Label cfg) : Label cfg :=
  { l with actions := l.actions.map (shownAhead d) }

namespace Ahead

variable {d : ℕ} {s s' : State cfg}

theorem countErr (h : Ahead d s s') : Ahead d s.countErr s'.countErr := by
  refine { h with errCounter := ?_ }
  have he := h.errCounter
  simp only [State.countErr]
  omega

theorem countAgain (h : Ahead d s s') : Ahead (d + 1) s s'.countErr := by
  refine { h with errCounter := ?_ }
  have he := h.errCounter
  simp only [State.countErr]
  omega

theorem unread (cfg : Config) (d : ℕ) : Unread (@Ahead cfg d) where
  dwellTables h := h.dwellTables
  dwellPkt h := h.dwellPkt
  tblBuffer h := h.tblBuffer
  sendEvent h _ _ := { h with }
  countCmd h := { h with cmdCounter := congrArg (fun n => (n + 1) % 256) h.cmdCounter }
  countErr h := h.countErr
  setTable h t c := { h with dwellTables := by simp only [State.setTable, h.dwellTables] }
  setBuffer h t b := { h with tblBuffer := by simp only [State.setBuffer, h.tblBuffer] }
  sampled h _ _ _ := { h with dwellTables := rfl, dwellPkt := rfl }

end Ahead

section Handlers

variable {d : ℕ} {s s' : State cfg}

theorem processCommand_ahead (svc : Services cfg) (h : Ahead d s s') (msg : Message cfg) :
    SameAnswer (Ahead (if msg.fcnCode = resetCntrsCC then 0 else d)) (processCommand svc msg s)
      (processCommand svc msg s') := by
  by_cases hr : msg.fcnCode = resetCntrsCC
  · rw [if_pos hr, processCommand, processCommand, if_pos hr, if_pos hr]
    exact ⟨rfl, { h with cmdCounter := rfl, errCounter := rfl }⟩
  · rw [if_neg hr]
    exact (Ahead.unread cfg d).processCommand svc h hr

theorem dwellTable_failed {svc : Services cfg} {fuel : ℕ} {t : TblIndex cfg}
    {c : DwellPacketControl cfg} {pkt : DwellPkt cfg} {p : Pass cfg}
    (h : dwellTable svc fuel t (.start c pkt) = some p) :
    p.status = .success ↔ p.actions.filterMap failedRead = [] := by
  refine dwellTable_keeps (I := fun r : Pass cfg => r.status = .success ↔
    r.actions.filterMap failedRead = []) h (iff_of_true rfl rfl) ?_ ?_ ?_
  · exact fun _ => iff_of_true rfl rfl
  · exact fun _ => iff_of_true rfl rfl
  · intro r hr _
    have hread : fetched svc t r.control.currentEntry r = none ↔
        (getDwellData svc t r.control.currentEntry r).1 ≠ .success := fetched_none _
    rw [dwellStep_status, hr, dwellStep_actions]
    change _ ∧ (getDwellData svc t r.control.currentEntry r).1 = .success ↔ _
    cases hf : fetched svc t r.control.currentEntry r with
    | none => simp [hread.mp hf, failedRead]
    | some bytes =>
      have hok : (getDwellData svc t r.control.currentEntry r).1 = .success := by
        by_contra hn
        simp [hread.mpr hn] at hf
      split_ifs <;> simp [hok, failedRead]

theorem shownAhead_pass {svc : Services cfg} {fuel : ℕ} {t : TblIndex cfg}
    {c : DwellPacketControl cfg} {pkt : DwellPkt cfg} {p : Pass cfg}
    (h : dwellTable svc fuel t (.start c pkt) = some p) :
    p.actions.map (shownAhead d) = p.actions := by
  refine (List.map_congr_left fun a ha => ?_).trans (List.map_id _)
  have ht := dwellTable_actions h a ha
  cases a with
  | sendHk payload => cases ht
  | _ => rfl

/-- A wakeup fails exactly if one of its reads did, and shows no error counter. -/
theorem dwellLoop_shown {svc : Services cfg} {fuel : ℕ} {w : Wakeup cfg}
    (h : dwellLoop svc fuel s = some w) :
    (w.status = .success ↔ w.actions.filterMap failedRead = []) ∧
      w.actions.map (shownAhead d) = w.actions := by
  refine foldlM_keeps (I := fun w : Wakeup cfg =>
    (w.status = .success ↔ w.actions.filterMap failedRead = []) ∧
      w.actions.map (shownAhead d) = w.actions) ?_ ⟨iff_of_true rfl rfl, rfl⟩ h
  rintro v t w ⟨hstatus, hshown⟩ hw
  rw [dwellTurn, Option.map_eq_some_iff] at hw
  obtain ⟨p, hp, rfl⟩ := hw
  refine ⟨?_, ?_⟩
  · dsimp only
    rw [List.filterMap_append, List.append_eq_nil_iff, ← hstatus, ← dwellTable_failed hp]
    split_ifs with hs <;> simp [hs]
  · rw [List.map_append, hshown, shownAhead_pass hp]

theorem hkStatus_ahead (h : Ahead d s s') :
    Ahead d (hkStatus s).1 (hkStatus s').1 ∧
      (hkStatus s').2 = (hkStatus s).2.map (shownAhead d) := by
  refine ⟨{ h with }, ?_⟩
  simp [hkStatus, hkPayload, memDwellEnableBits, shownAhead, h.cmdCounter, h.dwellTables,
    h.errCounter]

theorem manageDwellTable_shown {r : Resolver} {calls : ManageCalls cfg ℕ} {fuel : ℕ}
    {t : TblIndex cfg} {w : ℕ} {m : Managed cfg ℕ}
    (h : manageDwellTable r calls fuel t w s = some m) :
    m.actions.map (shownAhead d) = m.actions := by
  rcases manageLoop_cases h with ⟨ha, -⟩ | ⟨tbl, copied, ha, -⟩
  · rw [ha, List.map_nil]
  · rw [ha]
    rfl

end Handlers

section Input

variable {d : ℕ} {s s' : State cfg} {lib : EdsLibrary cfg}

theorem reported_ahead (lib : EdsLibrary cfg) (h : Ahead d s s') (msg : Message cfg)
    (status : CFEStatus) :
    Ahead (if status = .success then d else d + 1) s (reportStatus lib msg status s') := by
  by_cases hs : status = .success
  · rw [if_pos hs, hs, reportStatus_success]
    exact h
  · obtain ⟨e, he⟩ := reportStatus_error hs lib msg s'
    rw [if_neg hs, he]
    exact { h.countAgain with }

theorem aheadAfter_status {l : Label cfg} {status : CFEStatus} (hr : ¬ Resets l)
    (hc : CountedAgain l ↔ status ≠ .success) :
    aheadAfter d l = if status = .success then d else d + 1 := by
  rw [aheadAfter, if_neg hr]
  simp only [hc, ne_eq, ite_not]

theorem handlerResult_ahead (h : Ahead d s s') (svc : Services cfg) (fuel : ℕ) (msg : Message cfg)
    (hr : Routed msg) :
    Option.Rel (fun q q' =>
        q'.1 = q.1 ∧ q'.2.2 = q.2.2.map (shownAhead d) ∧
        Ahead (aheadAfter d ⟨svc, .message (some msg), q.2.2⟩) q.2.1
          (reportStatus lib msg q'.1 q'.2.1))
      (handlerResult svc fuel msg s) (handlerResult svc fuel msg s') := by
  simp only [Routed] at hr
  simp only [handlerResult]
  cases hm : msg.msgId with
  | wakeup =>
    refine rel_map (rel_self ((Ahead.unread cfg d).dwellLoop h svc fuel)) ?_
    rintro w w' ⟨hd, hw⟩
    obtain ⟨hfailed, hshown⟩ := dwellLoop_shown (d := d) hd
    refine ⟨hw.status, hw.actions.trans hshown.symm, ?_⟩
    simp only [hm] at hr
    have hcount : CountedAgain ⟨svc, .message (some msg), w.actions⟩ ↔ w'.status ≠ .success := by
      simp only [CountedAgain, hm, hr, hw.status, ne_eq, hfailed, forall_const]
    rw [aheadAfter_status (by simp [Resets, hm]) hcount]
    exact reported_ahead lib hw.state msg w'.status
  | sendHk =>
    obtain ⟨hstate, hactions⟩ := hkStatus_ahead h
    simp only [hm] at hr
    refine .some ⟨rfl, hactions, ?_⟩
    simpa [aheadAfter, Resets, CountedAgain, hm, hr] using hstate
  | cmd =>
    have hall := processCommand_ahead svc h msg
    simp only [hm] at hr
    refine .some ⟨hall.status, rfl, ?_⟩
    have hlast := reported_ahead lib hall.state msg (processCommand svc msg s').1
    rw [hall.status] at hlast ⊢
    by_cases hreset : msg.fcnCode = resetCntrsCC
    · have hok : (processCommand svc msg s).1 = .success := by
        simp [processCommand, hreset, resetCountersCmd]
      simpa [aheadAfter, Resets, hm, hr, hreset, hok] using hlast
    · have hcount : CountedAgain ⟨svc, .message (some msg), []⟩ ↔
          (processCommand svc msg s).1 ≠ .success := by
        rw [ne_eq, processCommand_status svc s msg]
        simp [CountedAgain, hm, hr]
      rw [aheadAfter_status (by simp [Resets, hm, hreset]) hcount]
      simpa [hreset] using hlast
  | other v => simp [hm] at hr

variable (hlib : lib.Documented)

include hlib

theorem message_ahead (h : Ahead d s s') (svc : Services cfg) (fuel : ℕ) (msg : Message cfg) :
    Option.Rel (fun q q' => q'.2 = q.2.map (shownAhead d) ∧
        Ahead (aheadAfter d ⟨svc, .message (some msg), q.2⟩) q.1 q'.1)
      (DwellDispatch.processCommandPacket svc fuel (some msg) s)
      (EdsDispatch.processCommandPacket lib svc fuel msg s') := by
  by_cases hr : Routed msg
  · rw [routed svc fuel s hr, eds_routed hlib svc fuel s' hr]
    exact rel_map (handlerResult_ahead h svc fuel msg hr) fun _ _ hq => hq.2
  · obtain ⟨e, he⟩ := unrouted svc fuel s hr
    obtain ⟨e', he'⟩ := eds_unrouted hlib svc fuel s' hr
    rw [he, he']
    refine .some ⟨rfl, ?_⟩
    simp only [Routed] at hr
    cases hm : msg.msgId with
    | cmd =>
      simp only [hm] at hr
      simpa [aheadAfter, Resets, CountedAgain, hm, hr] using { h.countErr with }
    | wakeup =>
      simp only [hm] at hr
      simpa [aheadAfter, Resets, CountedAgain, hm, hr] using { h.countAgain with }
    | sendHk =>
      simp only [hm] at hr
      simpa [aheadAfter, Resets, CountedAgain, hm, hr] using { h.countAgain with }
    | other v =>
      simpa [aheadAfter, Resets, CountedAgain, hm] using { h.countAgain with }

theorem exec_ahead (h : Ahead d s s') (fuel : ℕ) {k : Services cfg × Input cfg}
    (hk : k.2 ≠ .message none) :
    Option.Rel (fun q q' => q'.1 = labelAhead d q.1 ∧ Ahead (aheadAfter d q.1) q.2 q'.2)
      (exec fuel s k) (edsExec lib fuel s' k) := by
  obtain ⟨svc, input⟩ := k
  match input with
  | .manage t calls =>
    refine rel_map (rel_self
      ((Ahead.unread cfg d).manageLoop h svc.toResolver calls fuel t fuel 0)) ?_
    rintro m m' ⟨hd, hm⟩
    refine ⟨?_, ?_⟩
    · rw [hm.actions, labelAhead, manageDwellTable_shown hd]
    · simpa [aheadAfter, Resets, CountedAgain] using hm.state
  | .message none => exact absurd rfl hk
  | .message (some msg) =>
    refine rel_map (message_ahead hlib h svc fuel msg) ?_
    rintro ⟨u, acts⟩ ⟨u', acts'⟩ ⟨rfl, hu⟩
    exact ⟨rfl, hu⟩

end Input

/-- In every execution from one state, for all inputs in any order: both builds return or
neither does, they do the same to the tables, their buffers and the command counter, and
send the same packets, but that the error counter of the EDS build, also in housekeeping,
is ahead by what it has counted twice or alone since the last Reset. -/
theorem builds_run_alike {lib : EdsLibrary cfg} (hlib : lib.Documented) {s : State cfg}
    (hs : s.errCounter < 256) (fuel : ℕ) {ks : List (Services cfg × Input cfg)}
    (hk : ∀ k ∈ ks, k.2 ≠ .message none) :
    Option.Rel (fun q q' =>
        q'.1.map Prod.snd = adjusted aheadAfter labelAhead 0 (q.1.map Prod.snd) ∧
        Ahead ((q.1.map Prod.snd).foldl aheadAfter 0) q.2 q'.2)
      (runAll (exec fuel) s ks) (runAll (edsExec lib fuel) s ks) := by
  apply runAll_rel (R := Ahead)
  · intro k hmem d u u' hu
    exact exec_ahead hlib hu fuel (hk k hmem)
  · exact ⟨rfl, rfl, rfl, rfl, (Nat.mod_eq_of_lt hs).symm⟩

theorem builds_run_alike_refused :
    let config := threeEntries
    let refusing := smallServices config (.error 1)
    let unknown := blankMsg config (.other 0x1897) 0 (bareMsgLength config)
    let sendHk := blankMsg config .sendHk 0 (bareMsgLength config)
    let ks := [(refusing, startMsg config 1), (refusing, .message (some unknown)),
      (refusing, .message (some sendHk))]
    ∃ q q', runAll (exec 4) (blankState config) ks = some q ∧
      runAll (edsExec (reference config) 4) (blankState config) ks = some q' ∧
      q.2.hkPkt.invalidCmdCntr = 1 ∧ q'.2.hkPkt.invalidCmdCntr = 3 ∧
      q'.1.map Prod.snd = adjusted aheadAfter labelAhead 0 (q.1.map Prod.snd) ∧
      Ahead ((q.1.map Prod.snd).foldl aheadAfter 0) q.2 q'.2 := by
  intro config refusing unknown sendHk ks
  have plain : ((runAll (exec 4) (blankState config) ks).map
      fun q => q.2.hkPkt.invalidCmdCntr) = some 1 := by decide +kernel
  have eds : ((runAll (edsExec (reference config) 4) (blankState config) ks).map
      fun q => q.2.hkPkt.invalidCmdCntr) = some 3 := by decide +kernel
  obtain ⟨q, hq, hshown⟩ := Option.map_eq_some_iff.mp plain
  obtain ⟨q', hq', hshown'⟩ := Option.map_eq_some_iff.mp eds
  have small : (blankState config).errCounter < 256 := by decide
  have present : ∀ k ∈ ks, k.2 ≠ .message none := by simp [ks, startMsg]
  have hrel := builds_run_alike (reference_documented config) small 4 present
  rw [hq, hq'] at hrel
  cases hrel with
  | some h => exact ⟨q, q', hq, hq', hshown, hshown', h⟩

end BuildRuns
