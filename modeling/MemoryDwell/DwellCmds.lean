import MemoryDwell.DwellTbl
import Mathlib.Data.List.FinRange

/-! # Ground commands (md_cmds.c)

Each handler returns its status and the next state. A rejected argument leaves the
status at success, as in the source; the error counter tells the difference. -/
namespace DwellCmds

open DwellData DwellUtils DwellTbl

variable {cfg : Config}

def noopCmd (s : State cfg) : CFEStatus × State cfg := (.success, (s.sendEvent .noopInf).countCmd)

def resetCountersCmd (s : State cfg) : CFEStatus × State cfg :=
  (.success, { s.sendEvent .resetInf with cmdCounter := 0, errCounter := 0 })

def reject (e : EventMsg) (s : State cfg) : CFEStatus × State cfg :=
  (.success, (s.sendEvent e).countErr)

def anyTablesInMask (cfg : Config) (mask : UInt16) : Bool :=
  (List.finRange cfg.numDwellTables).any fun t => tableIsInMask (t + 1) mask

structure MaskLoop (cfg : Config) where
  state : State cfg
  status : CFEStatus
  errorCount : ℕ
  numTblInMask : ℕ
  anyTablesInMask : Bool

def MaskLoop.start (s : State cfg) : MaskLoop cfg := ⟨s, .success, 0, 0, false⟩

/-- What Start and Stop write into a control structure. -/
def switchControl (enabled countdown : ℕ) (c : DwellPacketControl cfg) : DwellPacketControl cfg :=
  { c with enabled := enabled, countdown := countdown, currentEntry := 0, pktOffset := 0 }

/-- One table of a Start or Stop; only Start reports a rate of zero. -/
def switchTable (svc : Services cfg) (mask : UInt16) (enabled countdown : ℕ)
    (reportZeroRate : Bool) (x : MaskLoop cfg) (t : TblIndex cfg) : MaskLoop cfg :=
  if tableIsInMask (t + 1) mask then
    let s := x.state.setTable t (switchControl enabled countdown (x.state.dwellTables t))
    let (tableUpdateStatus, s) := updateTableEnabledField svc t enabled s
    let failed := tableUpdateStatus ≠ .success
    { state :=
        if reportZeroRate ∧ (s.dwellTables t).rate = 0 then s.sendEvent (.zeroRateCmdInf (t + 1))
        else s
      status := if failed then tableUpdateStatus else x.status
      errorCount := if failed then x.errorCount + 1 else x.errorCount
      numTblInMask := x.numTblInMask + 1
      anyTablesInMask := true }
  else x

def switchTables (svc : Services cfg) (mask : UInt16) (enabled countdown : ℕ)
    (reportZeroRate : Bool) (s : State cfg) : MaskLoop cfg :=
  (List.finRange cfg.numDwellTables).foldl
    (switchTable svc mask enabled countdown reportZeroRate) (.start s)

/-- Start looks for a table in the mask before it touches any. -/
def startDwellCmd (svc : Services cfg) (p : CmdStartStopPayload) (s : State cfg) :
    CFEStatus × State cfg :=
  if anyTablesInMask cfg p.tableMask then
    let x := switchTables svc p.tableMask dwellEnabled 1 true s
    if x.errorCount = 0 then (x.status, x.state.countCmd.sendEvent (.startDwellInf p.tableMask))
    else
      (x.status, x.state.countErr.sendEvent
        (.startDwellErr p.tableMask x.errorCount x.numTblInMask))
  else reject (.emptyTblmaskErr "Start Dwell" p.tableMask) s

/-- Stop finds out in the loop whether the mask named a table. -/
def stopDwellCmd (svc : Services cfg) (p : CmdStartStopPayload) (s : State cfg) :
    CFEStatus × State cfg :=
  let x := switchTables svc p.tableMask dwellDisabled 0 false s
  if x.anyTablesInMask then
    if x.errorCount = 0 then (x.status, (x.state.sendEvent (.stopDwellInf p.tableMask)).countCmd)
    else
      (x.status, x.state.countErr.sendEvent
        (.stopDwellErr p.tableMask x.errorCount x.numTblInMask))
  else (x.status, (x.state.sendEvent (.emptyTblmaskErr "Stop Dwell" p.tableMask)).countErr)

def tableIndex (cfg : Config) (tableId : UInt16) : Option (TblIndex cfg) :=
  if h : validTableId cfg tableId = true then
    some ⟨tableId.toNat - 1, by
      simp only [validTableId, Bool.and_eq_true, decide_eq_true_eq] at h
      omega⟩
  else none

/-- The checks on a non-null Jam: the event of the first one that fails, or the
resolved address. -/
def jamChecks (svc : Services cfg) (p : CmdJamPayload cfg) : Except EventMsg ℕ :=
  let (resolved, resolvedAddr) := resolveSymAddr svc.toResolver 0 p.dwellAddress 0
  if resolved = false then .error (.cantResolveJamAddrErr p.dwellAddress.symName.cstr)
  else if validFieldLength p.fieldLength ≠ true then .error (.invalidLenArgErr p.fieldLength)
  else if validAddrRange svc.toResolver 0 resolvedAddr p.fieldLength.toNat ≠ true then
    .error (.invalidJamAddrErr resolvedAddr)
  else if p.fieldLength = 4 ∧ verify32Aligned resolvedAddr p.fieldLength.toNat ≠ true then
    .error (.jamAddrNot32BitErr resolvedAddr)
  else if p.fieldLength = 2 ∧ verify16Aligned resolvedAddr p.fieldLength.toNat ≠ true then
    .error (.jamAddrNot16BitErr resolvedAddr)
  else .ok resolvedAddr

def nullControlEntry : DwellControlEntry := ⟨0, 0, 0⟩

/-- The address of a null entry: offset zero and an empty name. The source writes the NUL
alone, and the name's other bytes are those of the stack; no lookup reads them, and here
they are zeros. -/
def nullDwellAddress (cfg : Config) : SymAddr cfg := ⟨0, .zeros _⟩

/-- The new entry goes into the local structure first; whether Table Services accepts
it comes out later. -/
def writeEntry (t : TblIndex cfg) (entryIndex : ℕ) (new : DwellControlEntry) (s : State cfg) :
    State cfg :=
  let c := s.dwellTables t
  s.setTable t { c with entry := Function.update c.entry entryIndex new }

def jamDone (t : TblIndex cfg) (tableId : UInt16) (s : State cfg) : State cfg :=
  let s := s.countCmd.setTable t (updateDwellControlInfo (s.dwellTables t))
  if (s.dwellTables t).rate = 0 ∧ (s.dwellTables t).enabled = dwellEnabled then
    s.sendEvent (.zeroRateCmdInf tableId.toNat)
  else s

/-- The end of both kinds of Jam, after the update of the Table Services buffer. -/
def jamOutcome (t : TblIndex cfg) (p : CmdJamPayload cfg) (done failed : EventMsg)
    (update : CFEStatus × State cfg) : CFEStatus × State cfg :=
  if update.1 = .success then (update.1, jamDone t p.tableId (update.2.sendEvent done))
  else (update.1, (update.2.sendEvent failed).countErr)

def jamDwellCmd (svc : Services cfg) (p : CmdJamPayload cfg) (s : State cfg) :
    CFEStatus × State cfg :=
  match tableIndex cfg p.tableId with
  | none => reject (.invalidJamTableErr p.tableId) s
  | some t =>
    let entryIndex := p.entryId.toNat - 1
    if validEntryId cfg p.entryId ≠ true then reject (.invalidEntryArgErr p.entryId) s
    else if p.fieldLength = 0 then
      jamOutcome t p (.jamNullDwellInf p.tableId p.entryId) (.jamNullDwellErr p.tableId p.entryId)
        (updateTableDwellEntry svc t entryIndex 0 0 (nullDwellAddress cfg)
          (writeEntry t entryIndex nullControlEntry s))
    else
      match jamChecks svc p with
      | .error e => reject e s
      | .ok resolvedAddr =>
        let newDwellAddress : SymAddr cfg :=
          ⟨p.dwellAddress.offset, svc.messageStringGet p.dwellAddress.symName⟩
        jamOutcome t p (.jamDwellInf p.tableId p.entryId) (.jamDwellErr p.tableId p.entryId)
          (updateTableDwellEntry svc t entryIndex p.fieldLength p.dwellDelay newDwellAddress
            (writeEntry t entryIndex ⟨p.fieldLength, p.dwellDelay, resolvedAddr⟩ s))

def setSignatureCmd (svc : Services cfg) (p : CmdSetSignaturePayload cfg) (s : State cfg) :
    CFEStatus × State cfg :=
  let stringLength := p.signature.scanNul
  if stringLength ≥ cfg.signatureFieldLength then reject .invalidSignatureLengthErr s
  else
    match tableIndex cfg p.tableId with
    | none => reject (.invalidSignatureTableErr p.tableId) s
    | some t =>
      let c := s.dwellTables t
      let (status, s) := updateTableSignature svc t p.signature
        (s.setTable t { c with signature := c.signature.copyTerminated p.signature })
      if status = .success then
        (status, (s.sendEvent (.setSignatureInf p.tableId p.signature.cstr)).countCmd)
      else (status, (s.sendEvent (.setSignatureErr p.tableId status)).countErr)

theorem jamChecks_ok {svc : Services cfg} {p : CmdJamPayload cfg} (h0 : p.fieldLength ≠ 0)
    (a : ℕ) :
    jamChecks svc p = .ok a ↔ resolveSymAddr svc.toResolver 0 p.dwellAddress 0 = (true, a) ∧
      Dwellable ⟨fun _ => none, svc.memValidateRange 0⟩ p.fieldLength a := by
  rw [jamChecks]
  rcases hr : resolveSymAddr svc.toResolver 0 p.dwellAddress 0 with ⟨found, b⟩
  cases found with
  | false => simp
  | true =>
    simp only [Prod.mk.injEq, true_and, Bool.true_eq_false, if_false]
    have hd := dwellable_iff ⟨fun _ => none, svc.memValidateRange 0⟩ h0 b
    split_ifs with h1 h2 h3 h4
    · exact iff_of_false (by simp) fun ⟨hb, h⟩ => h1 (hd.mp (hb ▸ h)).1
    · exact iff_of_false (by simp) fun ⟨hb, h⟩ => h2 (hd.mp (hb ▸ h)).2.1
    · exact iff_of_false (by simp) fun ⟨hb, h⟩ => (hd.mp (hb ▸ h)).2.2.1 h3
    · exact iff_of_false (by simp) fun ⟨hb, h⟩ => (hd.mp (hb ▸ h)).2.2.2 h4
    · have hok := hd.mpr ⟨not_not.mp h1, not_not.mp h2, h3, h4⟩
      simp only [Except.ok.injEq]
      exact ⟨fun hb => ⟨hb, hb ▸ hok⟩, fun hb => hb.1⟩

/-- A Jam and the validation of a table ask for the same things. -/
theorem jamChecks_map {svc : Services cfg} {m : MemoryMap} (hm : svc.toResolver = m.resolver)
    {p : CmdJamPayload cfg} (h0 : p.fieldLength ≠ 0) (a : ℕ) :
    jamChecks svc p = .ok a ↔
      m.resolve p.dwellAddress = some a ∧ Dwellable m p.fieldLength a := by
  rw [jamChecks_ok h0, hm, resolveSymAddr_found, dwellable_resolver]

theorem jamChecks_reader {svc : Services cfg} {m : MemoryMap} {behind : ℕ → List UInt8}
    (hm : svc.toResolver = m.reader cfg.maxPathLen behind) {p : CmdJamPayload cfg}
    (h0 : p.fieldLength ≠ 0) (a : ℕ) :
    jamChecks svc p = .ok a ↔
      m.resolveAt (behind 0) p.dwellAddress = some a ∧ Dwellable m p.fieldLength a := by
  rw [jamChecks_ok h0, hm, reader_found]
  apply and_congr_right
  intro _
  exact dwellable_resolver m 0 p.fieldLength a

theorem jamChecks_length {svc : Services cfg} {p : CmdJamPayload cfg} {a : ℕ}
    (h : jamChecks svc p = .ok a) :
    p.fieldLength = 0 ∨ p.fieldLength = 1 ∨ p.fieldLength = 2 ∨ p.fieldLength = 4 := by
  by_contra hn
  have hf : validFieldLength p.fieldLength ≠ true := fun hf => hn ((validFieldLength_iff _).mp hf)
  simp only [jamChecks, if_pos hf] at h
  split_ifs at h

theorem tableIndex_eq_some {tableId : UInt16} {t : TblIndex cfg} :
    tableIndex cfg tableId = some t ↔ tableId.toNat = t + 1 := by
  have ht := t.isLt
  have hv : validTableId cfg tableId = true ↔
      1 ≤ tableId.toNat ∧ tableId.toNat ≤ cfg.numDwellTables := by simp [validTableId]
  rw [tableIndex]
  split_ifs with h
  · rw [hv] at h
    simp only [Option.some.injEq, Fin.ext_iff]
    omega
  · rw [hv] at h
    exact iff_of_false (by simp) (by omega)

end DwellCmds
