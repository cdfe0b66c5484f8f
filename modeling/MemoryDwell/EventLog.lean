import MemoryDwell.CommandAccounting

/-! # The event log

The events that an execution issues tell what became of the commands and of the memory
reads: the counters can be computed from them, and they name every read that failed. -/
namespace EventLog

open DwellData DwellUtils DwellTbl DwellPkts DwellCmds DwellApp DwellDispatch DwellRuns
open DwellStreams DwellTraces FueledLoop TransitionRuns

variable {cfg : Config}

/-- `CFE_EVS_EventType`. -/
inductive EventType where
  | information
  | error
  | critical
  deriving DecidableEq, Repr

/-- The type that the call of CFE_EVS_SendEvent gives to an event. -/
def eventType : EventMsg → EventType
  | .initInf | .recoveredTblValidInf _ | .tblInitInf _ _ | .noopInf | .resetInf
  | .startDwellInf _ | .stopDwellInf _ | .zeroRateCmdInf _ | .jamNullDwellInf _ _
  | .jamDwellInf _ _ | .setSignatureInf _ _ | .zeroRateTblInf | .dwellTblInf _ _ _ => .information
  | .dwellTblTooLargeCrit | .tblRegisterCrit _ _ => .critical
  | .crPipeErr _ | .subHkErr _ | .subCmdErr _ | .subWakeupErr _ | .recoveredTblNotValidErr _
  | .initTblNameErr _ _ | .initTblFilenameErr _ _ | .noTblCopyErr _ _ | .tblStatusErr _ _
  | .startDwellErr _ _ _ | .stopDwellErr _ _ _ | .emptyTblmaskErr _ _ | .invalidJamTableErr _
  | .invalidEntryArgErr _ | .jamNullDwellErr _ _ | .cantResolveJamAddrErr _
  | .invalidLenArgErr _ | .invalidJamAddrErr _ | .jamAddrNot32BitErr _ | .jamAddrNot16BitErr _
  | .jamDwellErr _ _ | .invalidSignatureLengthErr | .invalidSignatureTableErr _
  | .setSignatureErr _ _ | .ccNotInTblErr _ | .cmdLenErr _ _ _ _ | .edsCmdLenErr _ _ _
  | .msgLenErr _ _ _ | .midErr _ | .dwellLoopGetDwellDataErr _ _ | .tblValNullPtrErr
  | .tblEnaFlag _ | .tblSigLenErr | .resolveErr _ _ _ | .rangeErr _ _ _ | .tblHasLenErr _ _
  | .tblAlignErr _ _ _ _ | .tblEntryErr _ _ | .updateTblEnErr _ _ | .updateTblDwellErr _ _
  | .updateTblSigErr _ _ => .error

/-- The entry and the table of a read that an event reports as failed. -/
def readFailure : EventMsg → Option (ℕ × ℕ)
  | .dwellLoopGetDwellDataErr entry table => some (entry, table)
  | _ => none

/-- What an event answers to a ground command. -/
inductive Answer where
  | done
  | reset
  | refused
  deriving DecidableEq, Repr

/-- The events that answer a command. Of the others a handler issues only the notes on a
rate of zero and the refusals of Table Services, which stand beside an answer. -/
def answer : EventMsg → Option Answer
  | .noopInf | .startDwellInf _ | .stopDwellInf _ | .jamNullDwellInf _ _ | .jamDwellInf _ _
  | .setSignatureInf _ _ => some .done
  | .resetInf => some .reset
  | .startDwellErr _ _ _ | .stopDwellErr _ _ _ | .emptyTblmaskErr _ _ | .invalidJamTableErr _
  | .invalidEntryArgErr _ | .jamNullDwellErr _ _ | .cantResolveJamAddrErr _
  | .invalidLenArgErr _ | .invalidJamAddrErr _ | .jamAddrNot32BitErr _ | .jamAddrNot16BitErr _
  | .jamDwellErr _ _ | .invalidSignatureLengthErr | .invalidSignatureTableErr _
  | .setSignatureErr _ _ | .ccNotInTblErr _ | .cmdLenErr _ _ _ _ => some .refused
  | _ => none

def tally (counters : ℕ × ℕ) : Answer → ℕ × ℕ
  | .done => ((counters.1 + 1) % 256, counters.2)
  | .reset => (0, 0)
  | .refused => (counters.1, (counters.2 + 1) % 256)

def counters (s : State cfg) : ℕ × ℕ := (s.cmdCounter, s.errCounter)

/-- Events without an answer, with an error among them exactly if `failed`. -/
structure Notes (failed : Prop) (s s' : State cfg) (new : List EventMsg) : Prop where
  events : s'.events = s.events ++ new
  silent : new.filterMap answer = []
  unread : new.filterMap readFailure = []
  errors : (∃ e ∈ new, eventType e = .error) ↔ failed
  kept : counters s' = counters s

/-- The answer to a command: one event, true to the counters, and an error exactly if the
command was refused. -/
structure Answered (a : Answer) (s s' : State cfg) (new : List EventMsg) : Prop where
  events : s'.events = s.events ++ new
  single : new.filterMap answer = [a]
  unread : new.filterMap readFailure = []
  errors : (∃ e ∈ new, eventType e = .error) ↔ a = .refused
  counted : counters s' = tally (counters s) a

theorem readFailure_answer {e : EventMsg} {a : Answer} (h : answer e = some a) :
    readFailure e = none := by
  cases e <;> first | rfl | cases h

theorem Notes.refl (s : State cfg) : Notes False s s [] := ⟨by simp, rfl, rfl, by simp, rfl⟩

theorem Notes.trans {p q : Prop} {s t u : State cfg} {new new' : List EventMsg}
    (h : Notes p s t new) (k : Notes q t u new') : Notes (p ∨ q) s u (new ++ new') := by
  refine ⟨by simp [k.events, h.events], by simp [h.silent, k.silent],
    by simp [h.unread, k.unread], ?_, k.kept.trans h.kept⟩
  simp only [List.mem_append, or_and_right, exists_or, h.errors, k.errors]

theorem Notes.congr {p q : Prop} {s t : State cfg} {new : List EventMsg} (h : Notes p s t new)
    (hpq : p ↔ q) : Notes q s t new :=
  ⟨h.events, h.silent, h.unread, h.errors.trans hpq, h.kept⟩

theorem Notes.answered {failed : Prop} {a : Answer} {s t u : State cfg} {new : List EventMsg}
    {e : EventMsg} (h : Notes failed s t new) (he : u.events = t.events ++ [e])
    (ha : answer e = some a) (hc : counters u = tally (counters t) a)
    (ht : eventType e = .error ↔ a = .refused) (hf : failed → a = .refused) :
    Answered a s u (new ++ [e]) := by
  refine ⟨by simp [he, h.events], by simp [h.silent, ha],
    by simp [h.unread, readFailure_answer ha], ?_, by rw [hc, h.kept]⟩
  simp only [List.mem_append, List.mem_singleton, or_and_right, exists_or, exists_eq_left,
    h.errors, ht]
  tauto

section Handlers

variable (svc : Services cfg) (s : State cfg)

theorem updateTable_notes (t : TblIndex cfg) (edit : DwellTableLoad cfg → DwellTableLoad cfg)
    (refused : CFEStatus → EventMsg) (ha : ∀ status, answer (refused status) = none)
    (hr : ∀ status, readFailure (refused status) = none)
    (ht : ∀ status, eventType (refused status) = .error) :
    ∃ new, Notes (¬ Granted svc t) s (updateTable svc t edit refused s).2 new := by
  rw [updateTable_eq]
  by_cases hg : Granted svc t
  · rw [if_pos hg]
    exact ⟨[], by simp [State.setBuffer], rfl, rfl, by simp [hg], rfl⟩
  · rw [if_neg hg]
    exact ⟨[refused (svc.getAddress t)], rfl, by simp [ha], by simp [hr], by simp [ht, hg], rfl⟩

theorem report_notes (p : Prop) [Decidable p] {e : EventMsg} (ha : answer e = none)
    (hr : readFailure e = none) (ht : eventType e = .information) :
    ∃ new, Notes False s (if p then s.sendEvent e else s) new := by
  split_ifs
  · exact ⟨[e], rfl, by simp [ha], by simp [hr], by simp [ht], rfl⟩
  · exact ⟨[], .refl s⟩

def LoopNotes (x y : MaskLoop cfg) : Prop :=
  ∃ new failed, Notes failed x.state y.state new ∧ x.errorCount ≤ y.errorCount ∧
    (failed ↔ x.errorCount < y.errorCount)

theorem LoopNotes.trans {x y z : MaskLoop cfg} (h : LoopNotes x y) (k : LoopNotes y z) :
    LoopNotes x z := by
  obtain ⟨new, p, hn, hle, hp⟩ := h
  obtain ⟨new', q, hn', hle', hq⟩ := k
  exact ⟨new ++ new', p ∨ q, hn.trans hn', hle.trans hle', by rw [hp, hq]; omega⟩

theorem switchTable_notes (mask : UInt16) (enabled countdown : ℕ) (report : Bool)
    (x : MaskLoop cfg) (t : TblIndex cfg) :
    LoopNotes x (switchTable svc mask enabled countdown report x t) := by
  by_cases hm : tableIsInMask (t + 1) mask = true
  · let s := x.state.setTable t (switchControl enabled countdown (x.state.dwellTables t))
    have hset : Notes False x.state s [] :=
      ⟨by simp [s, State.setTable], rfl, rfl, by simp, rfl⟩
    obtain ⟨new, hn⟩ := updateTable_notes svc s t (fun b => { b with enabled := enabled })
      (.updateTblEnErr t) (fun _ => rfl) (fun _ => rfl) (fun _ => rfl)
    let u := (updateTable svc t (fun b => { b with enabled := enabled }) (.updateTblEnErr t) s).2
    obtain ⟨new', hn'⟩ := report_notes u (report = true ∧ (u.dwellTables t).rate = 0)
      (e := .zeroRateCmdInf (t + 1)) rfl rfl rfl
    have hstate : (switchTable svc mask enabled countdown report x t).state =
        if report = true ∧ (u.dwellTables t).rate = 0 then u.sendEvent (.zeroRateCmdInf (t + 1))
        else u := by
      simp only [switchTable, hm, if_true]
      rfl
    have hcount : (switchTable svc mask enabled countdown report x t).errorCount =
        x.errorCount + if Granted svc t then 0 else 1 := by
      simp only [switchTable, hm, if_true, updateTableEnabledField, updateTable_eq]
      by_cases hg : Granted svc t
      · simp [hg]
      · have hne : svc.getAddress t ≠ .success := fun h => hg (Or.inl h)
        simp [hg, hne]
    have hall := (hset.trans hn).trans hn'
    have hnotes : Notes (¬ Granted svc t) x.state
        (switchTable svc mask enabled countdown report x t).state ([] ++ new ++ new') := by
      rw [hstate]
      exact hall.congr (by simp)
    refine ⟨_, _, hnotes, by omega, ?_⟩
    rw [hcount]
    split_ifs with hg <;> simp [hg]
  · rw [switchTable, if_neg hm]
    exact ⟨[], False, .refl _, le_rfl, by simp⟩

theorem switchTables_notes (mask : UInt16) (enabled countdown : ℕ) (report : Bool) :
    ∃ new, Notes ((switchTables svc mask enabled countdown report s).errorCount ≠ 0) s
      (switchTables svc mask enabled countdown report s).state new := by
  have loop : ∀ (l : List (TblIndex cfg)) (x : MaskLoop cfg),
      LoopNotes x (l.foldl (switchTable svc mask enabled countdown report) x) := by
    intro l
    induction l with
    | nil => exact fun x => ⟨[], False, .refl _, le_rfl, by simp⟩
    | cons t l ih => exact fun x => (switchTable_notes svc mask _ _ _ x t).trans (ih _)
  obtain ⟨new, failed, hn, -, hf⟩ := loop (List.finRange cfg.numDwellTables) (.start s)
  exact ⟨new, hn.congr (hf.trans Nat.pos_iff_ne_zero)⟩

/-- Every handler answers once. -/
def Answers (s s' : State cfg) : Prop := ∃ a new, Answered a s s' new

theorem reject_answers {e : EventMsg} (ha : answer e = some .refused)
    (ht : eventType e = .error) : Answers s (reject e s).2 :=
  ⟨_, _, Notes.answered (.refl s) rfl ha rfl (by simp [ht]) False.elim⟩

theorem startDwellCmd_answers (p : CmdStartStopPayload) :
    Answers s (startDwellCmd svc p s).2 := by
  obtain ⟨new, hn⟩ := switchTables_notes svc s p.tableMask dwellEnabled 1 true
  simp only [startDwellCmd]
  split_ifs with ha hz
  · exact ⟨.done, _, hn.answered rfl rfl rfl (by simp [eventType]) fun h => absurd hz h⟩
  · exact ⟨.refused, _, hn.answered rfl rfl rfl (by simp [eventType]) fun _ => rfl⟩
  · exact reject_answers s rfl rfl

theorem stopDwellCmd_answers (p : CmdStartStopPayload) :
    Answers s (stopDwellCmd svc p s).2 := by
  obtain ⟨new, hn⟩ := switchTables_notes svc s p.tableMask dwellDisabled 0 false
  simp only [stopDwellCmd]
  split_ifs with ha hz
  · exact ⟨.done, _, hn.answered rfl rfl rfl (by simp [eventType]) fun h => absurd hz h⟩
  · exact ⟨.refused, _, hn.answered rfl rfl rfl (by simp [eventType]) fun _ => rfl⟩
  · exact ⟨.refused, _, hn.answered rfl rfl rfl (by simp [eventType]) fun _ => rfl⟩

theorem jamChecks_error {p : CmdJamPayload cfg} {e : EventMsg} (h : jamChecks svc p = .error e) :
    answer e = some .refused ∧ eventType e = .error := by
  simp only [jamChecks] at h
  split_ifs at h <;> cases h <;> exact ⟨rfl, rfl⟩

theorem jamOutcome_answers {t : TblIndex cfg} {p : CmdJamPayload cfg} {done failed : EventMsg}
    (hd : answer done = some .done ∧ eventType done = .information)
    (hf : answer failed = some .refused ∧ eventType failed = .error) (e : ℕ)
    (length delay : UInt16) (address : SymAddr cfg) (new : DwellControlEntry) :
    Answers s (jamOutcome t p done failed
      (updateTableDwellEntry svc t e length delay address (writeEntry t e new s))).2 := by
  by_cases hg : Granted svc t
  · simp only [updateTableDwellEntry, updateTable_eq, if_pos hg, jamOutcome, if_true]
    let u := (((writeEntry t e new s).setBuffer t
      { (writeEntry t e new s).tblBuffer t with
        entry := Function.update ((writeEntry t e new s).tblBuffer t).entry e
          ⟨length, delay, address⟩ }).sendEvent done).countCmd
    obtain ⟨new', hn⟩ := report_notes
      (u.setTable t (updateDwellControlInfo (u.dwellTables t)))
      (((u.setTable t (updateDwellControlInfo (u.dwellTables t))).dwellTables t).rate = 0 ∧
        ((u.setTable t (updateDwellControlInfo (u.dwellTables t))).dwellTables t).enabled =
          dwellEnabled) (e := .zeroRateCmdInf p.tableId.toNat) rfl rfl rfl
    refine ⟨.done, [done] ++ new', ?_, ?_, ?_, ?_, ?_⟩
    · exact hn.events.trans (by rw [← List.append_assoc]; rfl)
    · simp [hn.silent, hd.1]
    · simp [hn.unread, readFailure_answer hd.1]
    · simp [or_and_right, exists_or, hn.errors, hd.2]
    · exact hn.kept
  · have hne : svc.getAddress t ≠ .success := fun h => hg (Or.inl h)
    simp only [updateTableDwellEntry, updateTable_eq, if_neg hg, jamOutcome, if_neg hne]
    have hnote : answer (.updateTblDwellErr t (svc.getAddress t)) = none := rfl
    have hread : readFailure (.updateTblDwellErr t (svc.getAddress t)) = none := rfl
    refine ⟨.refused, [.updateTblDwellErr t (svc.getAddress t), failed], ?_, ?_, ?_, ?_, rfl⟩
    · simp [State.countErr, State.sendEvent, writeEntry, State.setTable]
    · simp [hnote, hf.1]
    · simp [hread, readFailure_answer hf.1]
    · simp [hf.2]

theorem jamDwellCmd_answers (p : CmdJamPayload cfg) : Answers s (jamDwellCmd svc p s).2 := by
  simp only [jamDwellCmd]
  cases tableIndex cfg p.tableId with
  | none => exact reject_answers s rfl rfl
  | some t =>
    simp only
    split_ifs with hv h0
    · exact reject_answers s rfl rfl
    · exact jamOutcome_answers svc s ⟨rfl, rfl⟩ ⟨rfl, rfl⟩ _ _ _ _ _
    · cases hc : jamChecks svc p with
      | error e =>
        obtain ⟨ha, ht⟩ := jamChecks_error svc hc
        exact reject_answers s ha ht
      | ok a => exact jamOutcome_answers svc s ⟨rfl, rfl⟩ ⟨rfl, rfl⟩ _ _ _ _ _

theorem setSignatureCmd_answers (p : CmdSetSignaturePayload cfg) :
    Answers s (setSignatureCmd svc p s).2 := by
  simp only [setSignatureCmd]
  split_ifs with hl
  · exact reject_answers s rfl rfl
  · cases tableIndex cfg p.tableId with
    | none => exact reject_answers s rfl rfl
    | some t =>
      by_cases hg : Granted svc t
      · simp only [updateTableSignature, updateTable_eq, if_pos hg, if_true]
        exact ⟨.done, [.setSignatureInf p.tableId p.signature.cstr], rfl, rfl, rfl,
          by simp [eventType], rfl⟩
      · have hne : svc.getAddress t ≠ .success := fun h => hg (Or.inl h)
        simp only [updateTableSignature, updateTable_eq, if_neg hg, if_neg hne]
        exact ⟨.refused, [.updateTblSigErr t (svc.getAddress t),
          .setSignatureErr p.tableId (svc.getAddress t)], by
          simp [State.countErr, State.sendEvent, State.setTable], rfl, rfl,
          by simp [eventType], rfl⟩

theorem processCommand_answers (msg : Message cfg) :
    Answers s (processCommand svc msg s).2 := by
  rw [processCommand]
  split_ifs
  · exact ⟨.reset, [.resetInf], rfl, rfl, rfl, by simp [eventType], rfl⟩
  · exact startDwellCmd_answers svc s _
  · exact stopDwellCmd_answers svc s _
  · exact jamDwellCmd_answers svc s _
  · exact setSignatureCmd_answers svc s _
  · exact ⟨.done, [.noopInf], rfl, rfl, rfl, by simp [eventType], rfl⟩

theorem execRequest_answers (msg : Message cfg) : Answers s (execRequest svc msg s) := by
  rw [execRequest]
  split
  · exact reject_answers s rfl rfl
  · split_ifs
    · exact reject_answers s rfl rfl
    · exact processCommand_answers svc s msg

end Handlers

/-- The reads of an execution that failed, from what it did. -/
def failedRead : Action cfg → Option (ℕ × ℕ)
  | .sample t entry _ _ none => some (entry, t)
  | _ => none

section Pass

variable {svc : Services cfg} {t : TblIndex cfg} {n : ℕ} {p : Pass cfg}

theorem fetched_none (i : ℕ) :
    fetched svc t i p = none ↔ (getDwellData svc t i p).1 ≠ .success := by
  simp only [fetched, getDwellData]
  split_ifs with h
  · refine iff_of_false (fun hn => ?_) (not_not.mpr h)
    rw [hn] at h
    simp only [readStatus, Option.isSome_none, Bool.false_eq_true, if_false] at h
    split at h <;> cases h
  · simpa using h

theorem dwellStep_events :
    (dwellStep svc t n p).events = p.events ++
      if fetched svc t p.control.currentEntry p = none then
        [.dwellLoopGetDwellDataErr p.control.currentEntry t] else [] := by
  simp only [fetched_none, dwellStep, noteResult, sendDwellPkt]
  split_ifs <;> simp [getDwellData]

/-- The events of a pass are its failed reads. -/
def EventsAreReads (p : Pass cfg) : Prop :=
  p.events.filterMap answer = [] ∧
    p.events.filterMap readFailure = p.actions.filterMap failedRead

theorem dwellStep_reads (h : EventsAreReads p) : EventsAreReads (dwellStep svc t n p) := by
  rw [EventsAreReads, dwellStep_events, dwellStep_actions]
  cases hf : fetched svc t p.control.currentEntry p with
  | none =>
    have ha : answer (.dwellLoopGetDwellDataErr p.control.currentEntry t) = none := rfl
    simp only [if_true]
    split_ifs <;> simp [h.1, h.2, ha, readFailure, failedRead]
  | some bytes =>
    simp only [reduceCtorEq, if_false]
    split_ifs <;> simp [h.1, h.2, failedRead]

theorem dwellTable_reads {fuel : ℕ} {c : DwellPacketControl cfg} {k : DwellPkt cfg}
    {q : Pass cfg} (h : dwellTable svc fuel t (.start c k) = some q) : EventsAreReads q := by
  refine dwellTable_keeps (I := EventsAreReads) h ⟨rfl, rfl⟩ ?_ ?_ ?_
  · exact fun _ => ⟨rfl, rfl⟩
  · exact fun _ => ⟨rfl, rfl⟩
  · exact fun r hr _ => dwellStep_reads hr

end Pass

theorem dwellLoop_reads {svc : Services cfg} {fuel : ℕ} {s : State cfg} {w : Wakeup cfg}
    (h : dwellLoop svc fuel s = some w) :
    ∃ new, w.state.events = s.events ++ new ∧ new.filterMap answer = [] ∧
      new.filterMap readFailure = w.actions.filterMap failedRead := by
  refine foldlM_keeps (I := fun w : Wakeup cfg => ∃ new, w.state.events = s.events ++ new ∧
    new.filterMap answer = [] ∧ new.filterMap readFailure = w.actions.filterMap failedRead)
    ?_ ⟨[], by simp, rfl, rfl⟩ h
  rintro w t v ⟨new, he, ha, hr⟩ hv
  rw [dwellTurn, Option.map_eq_some_iff] at hv
  obtain ⟨p, hp, rfl⟩ := hv
  obtain ⟨hpa, hpr⟩ := dwellTable_reads hp
  exact ⟨new ++ p.events, by simp [he], by simp [ha, hpa], by simp [hr, hpr]⟩

theorem Notes.error {e : EventMsg} (ha : answer e = none) (hr : readFailure e = none)
    (ht : eventType e = .error) {s s' : State cfg} (he : s'.events = s.events ++ [e])
    (hc : counters s' = counters s) : Notes True s s' [e] :=
  ⟨he, by simp [ha], by simp [hr], by simp [ht], hc⟩

theorem manageLoop_notes {W : Type} {r : Resolver} {calls : ManageCalls cfg W} {copyFuel : ℕ}
    {t : TblIndex cfg} {s : State cfg} {fuel : ℕ} {w : W} {m : Managed cfg W}
    (h : manageLoop r calls copyFuel t s fuel w = some m) :
    (∃ new failed, Notes failed s m.state new) ∧ m.actions.filterMap failedRead = [] := by
  induction fuel generalizing w with
  | zero => cases h
  | succ fuel ih =>
    simp only [manageLoop] at h
    split_ifs at h
    · cases h
      exact ⟨⟨[], False, .refl s⟩, rfl⟩
    · exact ih h
    · simp only [updateFromLoad] at h
      split_ifs at h
      · rw [Option.map_eq_some_iff] at h
        obtain ⟨s', hs, rfl⟩ := h
        obtain ⟨-, rfl⟩ := copyAndStart_some hs
        exact ⟨⟨[], False, by simp [State.setTable, State.setBuffer], rfl, rfl, by simp, rfl⟩, rfl⟩
      · cases h
        exact ⟨⟨_, True, Notes.error (e := .noTblCopyErr (t + 1) _) rfl rfl rfl rfl rfl⟩, rfl⟩
      · cases h
        exact ⟨⟨[], False, .refl s⟩, rfl⟩
    · cases h
      exact ⟨⟨_, True, Notes.error (e := .tblStatusErr _ (t + 1)) rfl rfl rfl rfl rfl⟩, rfl⟩
    · cases h
      exact ⟨⟨[], False, .refl s⟩, rfl⟩

def isCommand (l : Label cfg) : Bool :=
  match l.input with
  | .message (some msg) => msg.msgId = .cmd
  | _ => false

/-- What a step adds to the log: the answer to its command, if it handles one, and the
reads that failed. -/
structure Recorded (s : State cfg) (l : Label cfg) (s' : State cfg) (new : List EventMsg) :
    Prop where
  events : s'.events = s.events ++ new
  answers : (new.filterMap answer).length = if isCommand l then 1 else 0
  counted : counters s' = (new.filterMap answer).foldl tally (counters s)
  reads : new.filterMap readFailure = l.actions.filterMap failedRead

theorem Notes.recorded {failed : Prop} {s s' : State cfg} {new : List EventMsg} {l : Label cfg}
    (h : Notes failed s s' new) (hc : isCommand l = false)
    (ha : l.actions.filterMap failedRead = []) : Recorded s l s' new :=
  ⟨h.events, by simp [h.silent, hc], by simp [h.silent, h.kept], by rw [h.unread, ha]⟩

theorem Answered.recorded {a : Answer} {s s' : State cfg} {new : List EventMsg} {l : Label cfg}
    (h : Answered a s s' new) (hc : isCommand l = true) (ha : l.actions = []) :
    Recorded s l s' new :=
  ⟨h.events, by simp [h.single, hc], by simp [h.single, h.counted], by simp [h.unread, ha]⟩

theorem step_recorded {s s' : State cfg} {l : Label cfg} (st : AnyStep s l s') :
    ∃ new, Recorded s l s' new := by
  obtain ⟨fuel, h⟩ := st
  obtain ⟨svc, input, actions⟩ := l
  cases input with
  | manage t calls =>
    simp only [exec, Option.map_eq_some_iff, Prod.mk.injEq, Label.mk.injEq, true_and] at h
    obtain ⟨m, hm, rfl, rfl⟩ := h
    obtain ⟨⟨new, failed, hn⟩, ha⟩ := manageLoop_notes hm
    exact ⟨new, hn.recorded rfl ha⟩
  | message bufPtr =>
    simp only [exec, Option.map_eq_some_iff, Prod.mk.injEq, Label.mk.injEq, true_and] at h
    obtain ⟨⟨v, as⟩, hv, rfl, rfl⟩ := h
    cases bufPtr with
    | none =>
      cases hv
      exact ⟨[], (Notes.refl s).recorded rfl rfl⟩
    | some msg =>
      simp only [processCommandPacket] at hv
      have lengthErr : Notes True s
          (s.sendEvent (.msgLenErr msg.msgId (bareMsgLength cfg) msg.size))
          [.msgLenErr msg.msgId (bareMsgLength cfg) msg.size] :=
        Notes.error rfl rfl rfl rfl rfl
      cases hid : msg.msgId with
      | wakeup =>
        simp only [hid] at hv lengthErr
        split_ifs at hv
        · cases hv
          exact ⟨_, lengthErr.recorded (by simp [isCommand, hid]) rfl⟩
        · rw [Option.map_eq_some_iff] at hv
          obtain ⟨w, hw, hv⟩ := hv
          cases hv
          obtain ⟨new, he, ha, hr⟩ := dwellLoop_reads hw
          obtain ⟨hc, hec, -⟩ := dwellLoop_rest hw
          exact ⟨new, he, by simp [ha, isCommand, hid], by simp [ha, counters, hc, hec], hr⟩
      | cmd =>
        simp only [hid] at hv
        cases hv
        obtain ⟨a, new, ha⟩ := execRequest_answers svc s msg
        exact ⟨new, ha.recorded (by simp [isCommand, hid]) rfl⟩
      | sendHk =>
        simp only [hid] at hv lengthErr
        split_ifs at hv
        · cases hv
          exact ⟨_, lengthErr.recorded (by simp [isCommand, hid]) rfl⟩
        · cases hv
          exact ⟨[], by simp, by simp [isCommand, hid], rfl, rfl⟩
      | other v =>
        simp only [hid] at hv
        cases hv
        have ha : answer (.midErr (.other v)) = none := rfl
        exact ⟨[.midErr (.other v)], rfl, by simp [ha, isCommand, hid], rfl, rfl⟩

/-- Every command is answered by one event: an error exactly if it was refused, with the
counters moved as the answer says, and no event beside it is an error unless it was. -/
theorem commands_answered {s s' : State cfg} {l : Label cfg} {msg : Message cfg}
    (st : AnyStep s l s') (hi : l.input = .message (some msg)) (hc : msg.msgId = .cmd) :
    ∃ a new, s'.events = s.events ++ new ∧ new.filterMap answer = [a] ∧
      ((∃ e ∈ new, eventType e = .error) ↔ a = .refused) ∧
      counters s' = tally (counters s) a := by
  obtain ⟨a, new, ha⟩ := execRequest_answers l.services s msg
  rw [← anyStep_command st hi hc] at ha
  exact ⟨a, new, ha.events, ha.single, ha.errors, ha.counted⟩

theorem commands_answered_refused :
    let config := threeEntries
    let l : Label config := ⟨smallServices config (.error 5), startMsg config 1, []⟩
    ∃ (s' : State config) (a : Answer) (new : List EventMsg),
      AnyStep (blankState config) l s' ∧ new.filterMap answer = [a] ∧
      ((∃ e ∈ new, eventType e = .error) ↔ a = .refused) ∧ counters s' = tally (0, 0) a := by
  intro config l
  have st : AnyStep (blankState config) l _ := ⟨0, rfl⟩
  obtain ⟨a, new, -, ha, he, hc⟩ := commands_answered st rfl rfl
  exact ⟨_, a, new, st, ha, he, hc⟩

/-- The log of a run holds one answer for every command, the counters are what these
answers add up to, and the failed reads are in it, all of them and in their order. -/
theorem log_tells_run {s s' : State cfg} {tr : List (State cfg × Label cfg)}
    (run : Run AnyStep s tr s') :
    ∃ new, s'.events = s.events ++ new ∧
      (new.filterMap answer).length = tr.countP (fun p => isCommand p.2) ∧
      counters s' = (new.filterMap answer).foldl tally (counters s) ∧
      new.filterMap readFailure = (tr.flatMap fun p => p.2.actions).filterMap failedRead := by
  induction run with
  | nil => exact ⟨[], by simp, rfl, rfl, rfl⟩
  | @snoc t u tr l run st ih =>
    obtain ⟨new, he, hl, hc, hr⟩ := ih
    obtain ⟨new', ⟨he', hl', hc', hr'⟩⟩ := step_recorded st
    refine ⟨new ++ new', by simp [he', he], ?_, by simp [hc', hc], by simp [hr', hr]⟩
    rw [List.filterMap_append, List.length_append, hl, hl', List.countP_append,
      List.countP_singleton]

theorem log_tells_run_failures :
    let config := threeEntries
    let services : Services config :=
      { smallServices config .success with memRead := fun _ _ _ _ => none }
    let tbl := loadTable config dwellEnabled [loadEntry config 4 1 8]
    ∃ (s s' : State config) (tr : List (State config × Label config)) (new : List EventMsg),
      Run AnyStep s tr s' ∧
      tr.map (fun p => Label.call p.2) =
        [(services, wakeupMsg config), (services, jamMsg config 9 1 4 1 8)] ∧
      Started flatMemory.resolver (recoverAll tbl) s ∧ s'.events = s.events ++ new ∧
      (new.filterMap answer).length = tr.countP (fun p => isCommand p.2) ∧
      counters s' = (new.filterMap answer).foldl tally (counters s) ∧
      new.filterMap readFailure =
        (tr.flatMap fun p => p.2.actions).filterMap failedRead := by
  intro config services tbl
  obtain ⟨s, tr, s', hs, run, hk, -⟩ := flight_run flatMemory.resolver (recoverAll tbl) 9
    (blankState config)
    [(services, wakeupMsg config), (services, jamMsg config 9 1 4 1 8)] (fun _ _ _ => true)
    (by decide +kernel)
  have any : Run AnyStep s tr s' := run_any run
  obtain ⟨new, hnew⟩ := log_tells_run any
  exact ⟨s, s', tr, new, any, hk, hs, hnew⟩

end EventLog
