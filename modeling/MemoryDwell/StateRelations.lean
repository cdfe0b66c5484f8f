import MemoryDwell.DwellRuns
import MemoryDwell.Lockstep

/-! # What no handler reads

No function of the application reads its log, and none but MD_HkStatus its counters. Two
states that differ in such a thing alone are treated alike: the same answers, the same
writes, the same packets. -/
namespace StateRelations

open DwellData DwellUtils DwellTbl DwellPkts DwellCmds DwellApp DwellDispatch DwellRuns
open Lockstep TransitionRuns

variable {cfg : Config}

/-- The relation sees no table, buffer or packet, and the writes of the handlers keep it. -/
structure Unread (R : State cfg → State cfg → Prop) : Prop where
  dwellTables : ∀ {s s'}, R s s' → s'.dwellTables = s.dwellTables
  dwellPkt : ∀ {s s'}, R s s' → s'.dwellPkt = s.dwellPkt
  tblBuffer : ∀ {s s'}, R s s' → s'.tblBuffer = s.tblBuffer
  sendEvent : ∀ {s s'}, R s s' → ∀ e e', R (s.sendEvent e) (s'.sendEvent e')
  countCmd : ∀ {s s'}, R s s' → R s.countCmd s'.countCmd
  countErr : ∀ {s s'}, R s s' → R s.countErr s'.countErr
  setTable : ∀ {s s'}, R s s' → ∀ t c, R (s.setTable t c) (s'.setTable t c)
  setBuffer : ∀ {s s'}, R s s' → ∀ t b, R (s.setBuffer t b) (s'.setBuffer t b)
  sampled : ∀ {s s'}, R s s' → ∀ tables pkts new,
    R { s with dwellTables := tables, dwellPkt := pkts, events := s.events ++ new }
      { s' with dwellTables := tables, dwellPkt := pkts, events := s'.events ++ new }

structure SameAnswer (R : State cfg → State cfg → Prop) (a b : CFEStatus × State cfg) :
    Prop where
  status : b.1 = a.1
  state : R a.2 b.2

/-- The variables of the loops over a mask. -/
structure SameLoop (R : State cfg → State cfg → Prop) (x x' : MaskLoop cfg) : Prop where
  state : R x.state x'.state
  status : x'.status = x.status
  errorCount : x'.errorCount = x.errorCount
  numTblInMask : x'.numTblInMask = x.numTblInMask
  anyTablesInMask : x'.anyTablesInMask = x.anyTablesInMask

/-- Two wakeups that have come to the same table. -/
structure SameWakeup (R : State cfg → State cfg → Prop) (w w' : Wakeup cfg) : Prop where
  state : R w.state w'.state
  status : w'.status = w.status
  actions : w'.actions = w.actions

/-- Two ends of a call of MD_ManageDwellTable. -/
structure SameManaged {W : Type} (R : State cfg → State cfg → Prop) (m m' : Managed cfg W) :
    Prop where
  state : R m.state m'.state
  actions : m'.actions = m.actions

namespace Unread

variable {R : State cfg → State cfg → Prop} (blind : Unread R) {s s' : State cfg}

include blind

section Commands

variable (svc : Services cfg)

theorem note (h : R s s') (p : Prop) [Decidable p] (e : EventMsg) :
    R (if p then s.sendEvent e else s) (if p then s'.sendEvent e else s') := by
  split_ifs
  · exact blind.sendEvent h e e
  · exact h

theorem updateTable (h : R s s') (t : TblIndex cfg)
    (edit : DwellTableLoad cfg → DwellTableLoad cfg) (refused : CFEStatus → EventMsg) :
    SameAnswer R (updateTable svc t edit refused s) (updateTable svc t edit refused s') := by
  rw [updateTable_eq, updateTable_eq, blind.tblBuffer h]
  split_ifs
  · exact ⟨rfl, blind.setBuffer h t _⟩
  · exact ⟨rfl, blind.sendEvent h _ _⟩

theorem reject (h : R s s') (e : EventMsg) : SameAnswer R (reject e s) (reject e s') :=
  ⟨rfl, blind.countErr (blind.sendEvent h e e)⟩

theorem switchTable {x x' : MaskLoop cfg} (h : SameLoop R x x') (mask : UInt16)
    (enabled countdown : ℕ) (report : Bool) (t : TblIndex cfg) :
    SameLoop R (switchTable svc mask enabled countdown report x t)
      (switchTable svc mask enabled countdown report x' t) := by
  rw [DwellCmds.switchTable, DwellCmds.switchTable]
  by_cases hm : tableIsInMask (t + 1) mask = true
  · rw [if_pos hm, if_pos hm, blind.dwellTables h.state]
    have hset := blind.setTable h.state t (switchControl enabled countdown (x.state.dwellTables t))
    obtain ⟨hs, hstate⟩ := blind.updateTable svc hset t (fun b => { b with enabled := enabled })
      (.updateTblEnErr t)
    simp only [updateTableEnabledField, hs, h.status, h.errorCount, h.numTblInMask,
      blind.dwellTables hstate]
    exact ⟨blind.note hstate _ _, rfl, rfl, rfl, rfl⟩
  · rw [if_neg hm, if_neg hm]
    exact h

theorem switchTables (h : R s s') (mask : UInt16) (enabled countdown : ℕ) (report : Bool) :
    SameLoop R (switchTables svc mask enabled countdown report s)
      (switchTables svc mask enabled countdown report s') :=
  List.foldl_rel ⟨h, rfl, rfl, rfl, rfl⟩ fun t _ _ _ hx =>
    blind.switchTable svc hx mask enabled countdown report t

theorem startDwellCmd (h : R s s') (p : CmdStartStopPayload) :
    SameAnswer R (startDwellCmd svc p s) (startDwellCmd svc p s') := by
  have hloop := blind.switchTables svc h p.tableMask dwellEnabled 1 true
  simp only [DwellCmds.startDwellCmd, hloop.errorCount, hloop.numTblInMask]
  split_ifs
  · exact ⟨hloop.status, blind.sendEvent (blind.countCmd hloop.state) _ _⟩
  · exact ⟨hloop.status, blind.sendEvent (blind.countErr hloop.state) _ _⟩
  · exact blind.reject h _

theorem stopDwellCmd (h : R s s') (p : CmdStartStopPayload) :
    SameAnswer R (stopDwellCmd svc p s) (stopDwellCmd svc p s') := by
  have hloop := blind.switchTables svc h p.tableMask dwellDisabled 0 false
  simp only [DwellCmds.stopDwellCmd, hloop.errorCount, hloop.numTblInMask, hloop.anyTablesInMask]
  split_ifs
  · exact ⟨hloop.status, blind.countCmd (blind.sendEvent hloop.state _ _)⟩
  · exact ⟨hloop.status, blind.sendEvent (blind.countErr hloop.state) _ _⟩
  · exact ⟨hloop.status, blind.countErr (blind.sendEvent hloop.state _ _)⟩

theorem writeEntry (h : R s s') (t : TblIndex cfg) (i : ℕ) (new : DwellControlEntry) :
    R (writeEntry t i new s) (writeEntry t i new s') := by
  rw [DwellCmds.writeEntry, DwellCmds.writeEntry, blind.dwellTables h]
  exact blind.setTable h t _

theorem jamDone (h : R s s') (t : TblIndex cfg) (tableId : UInt16) :
    R (jamDone t tableId s) (jamDone t tableId s') := by
  have hset := blind.setTable (blind.countCmd h) t (updateDwellControlInfo (s.dwellTables t))
  rw [DwellCmds.jamDone, DwellCmds.jamDone, blind.dwellTables h, blind.dwellTables hset]
  exact blind.note hset _ _

theorem jamOutcome {u u' : CFEStatus × State cfg} (h : SameAnswer R u u') (t : TblIndex cfg)
    (p : CmdJamPayload cfg) (done failed : EventMsg) :
    SameAnswer R (jamOutcome t p done failed u) (jamOutcome t p done failed u') := by
  rw [DwellCmds.jamOutcome, DwellCmds.jamOutcome, h.status]
  split_ifs
  · exact ⟨rfl, blind.jamDone (blind.sendEvent h.state _ _) t p.tableId⟩
  · exact ⟨rfl, blind.countErr (blind.sendEvent h.state _ _)⟩

theorem jamDwellCmd (h : R s s') (p : CmdJamPayload cfg) :
    SameAnswer R (jamDwellCmd svc p s) (jamDwellCmd svc p s') := by
  have written (t : TblIndex cfg) (i : ℕ) (new : DwellControlEntry) (length delay : UInt16)
      (address : SymAddr cfg) := blind.updateTable svc (blind.writeEntry h t i new) t
        (fun b => { b with entry := Function.update b.entry i ⟨length, delay, address⟩ })
        (.updateTblDwellErr t)
  rw [DwellCmds.jamDwellCmd, DwellCmds.jamDwellCmd]
  cases tableIndex cfg p.tableId with
  | none => exact blind.reject h _
  | some t =>
    dsimp only
    split_ifs
    · exact blind.reject h _
    · exact blind.jamOutcome (written t _ _ _ _ _) t p _ _
    · cases jamChecks svc p with
      | error e => exact blind.reject h e
      | ok a => exact blind.jamOutcome (written t _ _ _ _ _) t p _ _

theorem signed {u u' : CFEStatus × State cfg} (h : SameAnswer R u u') (done : EventMsg)
    (failed : CFEStatus → EventMsg) :
    SameAnswer R
      (if u.1 = .success then (u.1, (u.2.sendEvent done).countCmd)
        else (u.1, (u.2.sendEvent (failed u.1)).countErr))
      (if u'.1 = .success then (u'.1, (u'.2.sendEvent done).countCmd)
        else (u'.1, (u'.2.sendEvent (failed u'.1)).countErr)) := by
  rw [h.status]
  split_ifs
  · exact ⟨rfl, blind.countCmd (blind.sendEvent h.state _ _)⟩
  · exact ⟨rfl, blind.countErr (blind.sendEvent h.state _ _)⟩

theorem setSignatureCmd (h : R s s') (p : CmdSetSignaturePayload cfg) :
    SameAnswer R (setSignatureCmd svc p s) (setSignatureCmd svc p s') := by
  rw [DwellCmds.setSignatureCmd, DwellCmds.setSignatureCmd, blind.dwellTables h]
  dsimp only
  split_ifs
  · exact blind.reject h _
  · cases tableIndex cfg p.tableId with
    | none => exact blind.reject h _
    | some t =>
      have hset := blind.setTable h t { s.dwellTables t with
        signature := (s.dwellTables t).signature.copyTerminated p.signature }
      exact blind.signed (blind.updateTable svc hset t _ _) _ _

/-- Every handler but that of a Reset, which clears what the relation may be about. -/
theorem processCommand (h : R s s') {msg : Message cfg} (hr : msg.fcnCode ≠ resetCntrsCC) :
    SameAnswer R (processCommand svc msg s) (processCommand svc msg s') := by
  rw [DwellDispatch.processCommand, DwellDispatch.processCommand]
  split_ifs
  · contradiction
  · exact blind.startDwellCmd svc h _
  · exact blind.stopDwellCmd svc h _
  · exact blind.jamDwellCmd svc h _
  · exact blind.setSignatureCmd svc h _
  · exact ⟨rfl, blind.countCmd (blind.sendEvent h _ _)⟩

end Commands

theorem dwellLoop (h : R s s') (svc : Services cfg) (fuel : ℕ) :
    Option.Rel (SameWakeup R) (dwellLoop svc fuel s) (dwellLoop svc fuel s') := by
  refine foldlM_rel ⟨h, rfl, rfl⟩ ?_ _
  intro w w' t hw
  rw [dwellTurn, dwellTurn, blind.dwellTables hw.state, blind.dwellPkt hw.state]
  cases dwellTable svc fuel t (.start (w.state.dwellTables t) (w.state.dwellPkt t)) with
  | none => exact .none
  | some p =>
    refine .some ⟨blind.sampled hw.state _ _ _, ?_, ?_⟩
    · simp only [hw.status]
    · simp only [hw.actions]

theorem updateFromLoad {W : Type} (h : R s s') (r : Resolver) (calls : ManageCalls cfg W)
    (fuel : ℕ) (t : TblIndex cfg) (w : W) :
    Option.Rel (SameManaged R) (updateFromLoad r calls fuel t w s)
      (updateFromLoad r calls fuel t w s') := by
  rw [DwellApp.updateFromLoad, DwellApp.updateFromLoad]
  have hset := blind.setBuffer h t (calls.loaded (calls.update w).2)
  dsimp only
  split_ifs
  · rw [copyAndStart, copyAndStart, blind.dwellTables hset, blind.tblBuffer hset]
    cases copyUpdatedTbl r fuel ((s.setBuffer t (calls.loaded (calls.update w).2)).tblBuffer t)
        ((s.setBuffer t (calls.loaded (calls.update w).2)).dwellTables t) with
    | none => exact .none
    | some c => exact .some ⟨blind.setTable hset t _, rfl⟩
  · exact .some ⟨blind.sendEvent hset _ _, rfl⟩
  · exact .some ⟨h, rfl⟩

theorem manageLoop {W : Type} (h : R s s') (r : Resolver) (calls : ManageCalls cfg W)
    (copyFuel : ℕ) (t : TblIndex cfg) (fuel : ℕ) (w : W) :
    Option.Rel (SameManaged R) (manageLoop r calls copyFuel t s fuel w)
      (manageLoop r calls copyFuel t s' fuel w) := by
  induction fuel generalizing w with
  | zero => exact .none
  | succ fuel ih =>
    rw [DwellApp.manageLoop, DwellApp.manageLoop]
    dsimp only
    split_ifs
    · exact .some ⟨h, rfl⟩
    · exact ih _
    · exact blind.updateFromLoad h r calls copyFuel t _
    · exact .some ⟨blind.sendEvent h _ _, rfl⟩
    · exact .some ⟨h, rfl⟩

end Unread

/-! The log itself. -/

/-- The same state, but for what has been logged. -/
def Unlogged (s s' : State cfg) : Prop := ∃ log, s' = { s with events := log }

theorem unlogged_unread : Unread (@Unlogged cfg) where
  dwellTables := by
    rintro s _ ⟨log, rfl⟩
    rfl
  dwellPkt := by
    rintro s _ ⟨log, rfl⟩
    rfl
  tblBuffer := by
    rintro s _ ⟨log, rfl⟩
    rfl
  sendEvent := by
    rintro s _ ⟨log, rfl⟩ e e'
    exact ⟨_, rfl⟩
  countCmd := by
    rintro s _ ⟨log, rfl⟩
    exact ⟨_, rfl⟩
  countErr := by
    rintro s _ ⟨log, rfl⟩
    exact ⟨_, rfl⟩
  setTable := by
    rintro s _ ⟨log, rfl⟩ t c
    exact ⟨_, rfl⟩
  setBuffer := by
    rintro s _ ⟨log, rfl⟩ t b
    exact ⟨_, rfl⟩
  sampled := by
    rintro s _ ⟨log, rfl⟩ tables pkts new
    exact ⟨_, rfl⟩

theorem execRequest_unlogged {s s' : State cfg} (h : Unlogged s s') (svc : Services cfg)
    (msg : Message cfg) : Unlogged (execRequest svc msg s) (execRequest svc msg s') := by
  have unread := @unlogged_unread cfg
  rw [execRequest, execRequest]
  cases searchCmdHndlrTbl cfg msg.fcnCode with
  | none => exact unread.countErr (unread.sendEvent h _ _)
  | some r =>
    dsimp only
    split_ifs
    · exact unread.countErr (unread.sendEvent h _ _)
    · by_cases hr : msg.fcnCode = resetCntrsCC
      · obtain ⟨log, rfl⟩ := h
        rw [processCommand, processCommand, if_pos hr, if_pos hr]
        exact ⟨_, rfl⟩
      · exact (unread.processCommand svc h hr).state

theorem processCommandPacket_unlogged {s s' : State cfg} (h : Unlogged s s') (svc : Services cfg)
    (fuel : ℕ) (bufPtr : Option (Message cfg)) :
    Option.Rel (fun q q' => q'.2 = q.2 ∧ Unlogged q.1 q'.1)
      (processCommandPacket svc fuel bufPtr s) (processCommandPacket svc fuel bufPtr s') := by
  have unread := @unlogged_unread cfg
  cases bufPtr with
  | none => exact .some ⟨rfl, h⟩
  | some msg =>
    rw [processCommandPacket, processCommandPacket]
    cases msg.msgId with
    | wakeup =>
      dsimp only
      split_ifs
      · exact .some ⟨rfl, unread.sendEvent h _ _⟩
      · exact rel_map (unread.dwellLoop h svc fuel) fun w w' hw => ⟨hw.actions, hw.state⟩
    | cmd => exact .some ⟨rfl, execRequest_unlogged h svc msg⟩
    | sendHk =>
      dsimp only
      split_ifs
      · exact .some ⟨rfl, unread.sendEvent h _ _⟩
      · obtain ⟨log, rfl⟩ := h
        exact .some ⟨rfl, _, rfl⟩
    | other v => exact .some ⟨rfl, unread.sendEvent h _ _⟩

/-- No step reads the log. -/
theorem exec_unlogged {s s' : State cfg} (h : Unlogged s s') (fuel : ℕ)
    (k : Services cfg × Input cfg) :
    Option.Rel (fun q q' => q'.1 = q.1 ∧ Unlogged q.2 q'.2) (exec fuel s k) (exec fuel s' k) := by
  obtain ⟨svc, ⟨t, calls⟩ | bufPtr⟩ := k
  · refine rel_map (unlogged_unread.manageLoop h svc.toResolver calls fuel t fuel 0) ?_
    intro m m' hm
    exact ⟨by rw [hm.actions], hm.state⟩
  · refine rel_map (processCommandPacket_unlogged h svc fuel bufPtr) ?_
    rintro ⟨u, acts⟩ ⟨u', acts'⟩ ⟨rfl, hu⟩
    exact ⟨rfl, hu⟩

theorem anyStep_unlogged {s s' u : State cfg} {l : Label cfg} (h : Unlogged s s')
    (st : AnyStep s l u) : ∃ u', AnyStep s' l u' ∧ Unlogged u u' := by
  obtain ⟨fuel, he⟩ := st
  have hrel := exec_unlogged h fuel (l.services, l.input)
  rw [he] at hrel
  cases hq : exec fuel s' (l.services, l.input) with
  | none =>
    rw [hq] at hrel
    cases hrel
  | some q =>
    rw [hq] at hrel
    cases hrel with
    | some hr =>
      obtain ⟨l', u'⟩ := q
      obtain ⟨rfl, hu⟩ := hr
      exact ⟨u', ⟨fuel, hq⟩, hu⟩

theorem run_unlogged {s s' u : State cfg} {tr : List (State cfg × Label cfg)} (h : Unlogged s s')
    (run : Run AnyStep s tr u) :
    ∃ tr' u', Run AnyStep s' tr' u' ∧ Along Unlogged tr tr' ∧ Unlogged u u' := by
  refine run_along ?_ run h
  intro _ _ _ _ h st
  exact anyStep_unlogged h st

end StateRelations
