import MemoryDwell.DwellTraces

/-! # Accounting of ground commands

A command is counted once, in one of the two counters, and a command that is rejected
before anything is attempted changes nothing but the error counter. What a command needs
is said here in its own terms and compared with the handlers. -/
namespace CommandAccounting

open DwellData DwellUtils DwellTbl DwellCmds DwellDispatch DwellRuns DwellStreams DwellTraces
open FueledLoop

variable {cfg : Config}

def Dispatchable (msg : Message cfg) : Prop :=
  ∃ r ∈ cmdHandlerTbl cfg, r.cmdCode = msg.fcnCode ∧ r.expectedLength = msg.size

structure JamArgumentsOk (svc : Services cfg) (p : CmdJamPayload cfg) : Prop where
  table : ∃ t : TblIndex cfg, p.tableId.toNat = t + 1
  entry : 1 ≤ p.entryId.toNat ∧ p.entryId.toNat ≤ cfg.dwellTableSize
  address : p.fieldLength ≠ 0 → ∃ a,
    resolveSymAddr svc.toResolver 0 p.dwellAddress 0 = (true, a) ∧
    (p.fieldLength = 1 ∨ p.fieldLength = 2 ∨ p.fieldLength = 4) ∧
    svc.memValidateRange 0 a p.fieldLength.toNat = true ∧
    (p.fieldLength = 2 → a % 2 = 0) ∧ (p.fieldLength = 4 → a % 4 = 0)

/-- The tables a command is about. -/
def Addresses (msg : Message cfg) (t : TblIndex cfg) : Prop :=
  ((msg.fcnCode = startDwellCC ∨ msg.fcnCode = stopDwellCC) ∧
      msg.startStop.tableMask.toNat.testBit t = true) ∨
    (msg.fcnCode = jamDwellCC ∧ msg.jam.tableId.toNat = t + 1) ∨
    (msg.fcnCode = setSignatureCC ∧ msg.setSignature.tableId.toNat = t + 1)

structure ArgumentsOk (svc : Services cfg) (msg : Message cfg) : Prop where
  mask : msg.fcnCode = startDwellCC ∨ msg.fcnCode = stopDwellCC →
    ∃ t : TblIndex cfg, msg.startStop.tableMask.toNat.testBit t = true
  jam : msg.fcnCode = jamDwellCC → JamArgumentsOk svc msg.jam
  signature : msg.fcnCode = setSignatureCC → msg.setSignature.signature.Terminated ∧
    ∃ t : TblIndex cfg, msg.setSignature.tableId.toNat = t + 1

/-- Exactly one counter goes up. -/
def Counted (done : Prop) (s s' : State cfg) : Prop :=
  (done → s'.cmdCounter = (s.cmdCounter + 1) % 256 ∧ s'.errCounter = s.errCounter) ∧
    (¬done → s'.cmdCounter = s.cmdCounter ∧ s'.errCounter = (s.errCounter + 1) % 256)

theorem Counted.congr {p q : Prop} {s s' : State cfg} (h : Counted p s s') (hpq : p ↔ q) :
    Counted q s s' := by
  rw [← hpq]
  exact h

theorem Counted.of_counters {p : Prop} {s s' s'' : State cfg} (h : Counted p s' s'')
    (hc : s'.cmdCounter = s.cmdCounter) (he : s'.errCounter = s.errCounter) :
    Counted p s s'' := by
  rw [Counted, hc, he] at h
  exact h

def Refused (s s' : State cfg) : Prop :=
  s'.cmdCounter = s.cmdCounter ∧ s'.errCounter = (s.errCounter + 1) % 256

def Accomplished (s s' : State cfg) : Prop :=
  s'.cmdCounter = (s.cmdCounter + 1) % 256 ∧ s'.errCounter = s.errCounter

theorem Counted.refused_iff {done : Prop} {s s' : State cfg} (h : Counted done s s') :
    Refused s s' ↔ ¬done := by
  constructor
  · rintro ⟨hc, -⟩ hd
    have := (h.1 hd).1
    omega
  · exact h.2

theorem Counted.accomplished_iff {done : Prop} {s s' : State cfg} (h : Counted done s s') :
    Accomplished s s' ↔ done := by
  constructor
  · rintro ⟨hc, -⟩
    by_contra hd
    have := (h.2 hd).1
    omega
  · exact h.1

theorem reject_counted (e : EventMsg) (s : State cfg) : Counted False s (reject e s).2 :=
  ⟨False.elim, fun _ => ⟨rfl, rfl⟩⟩

theorem wellFormed_iff (msg : Message cfg) : wellFormed msg = true ↔ Dispatchable msg := by
  have hnd : ((cmdHandlerTbl cfg).map CmdHandlerTblRec.cmdCode).Nodup :=
    show [0, 1, 2, 3, 4, 5].Nodup by decide
  cases hf : searchCmdHndlrTbl cfg msg.fcnCode with
  | none =>
    have hne := List.find?_eq_none.mp hf
    simp only [wellFormed, hf]
    apply iff_of_false (by simp)
    rintro ⟨r, hr, hc, -⟩
    exact hne r hr (by simp [hc])
  | some r =>
    have hmem := List.mem_of_find?_eq_some hf
    have hcode : r.cmdCode = msg.fcnCode := by simpa using List.find?_some hf
    simp only [wellFormed, hf, decide_eq_true_eq]
    constructor
    · intro hl
      exact ⟨r, hmem, hcode, hl.symm⟩
    · rintro ⟨r', hr', hc', hl'⟩
      have heq : r' = r := List.inj_on_of_nodup_map hnd hr' hmem (hc'.trans hcode.symm)
      exact heq ▸ hl'.symm

theorem updateTable_counters (svc : Services cfg) (t : TblIndex cfg)
    (edit : DwellTableLoad cfg → DwellTableLoad cfg) (refused : CFEStatus → EventMsg)
    (s : State cfg) :
    let q := updateTable svc t edit refused s
    (q.1 = .success ↔ Granted svc t) ∧ q.2.cmdCounter = s.cmdCounter ∧
      q.2.errCounter = s.errCounter := by
  rw [updateTable_eq]
  split_ifs with hg
  · exact ⟨iff_of_true rfl hg, rfl, rfl⟩
  · exact ⟨iff_of_false (fun h => hg (Or.inl h)) hg, rfl, rfl⟩

theorem report_counters (p : Prop) [Decidable p] (e : EventMsg) (s : State cfg) :
    (if p then s.sendEvent e else s).cmdCounter = s.cmdCounter ∧
      (if p then s.sendEvent e else s).errCounter = s.errCounter := by
  split_ifs <;> exact ⟨rfl, rfl⟩

theorem switchTable_counts (svc : Services cfg) (mask : UInt16) (enabled countdown : ℕ)
    (report : Bool) (x : MaskLoop cfg) (t : TblIndex cfg) :
    let y := switchTable svc mask enabled countdown report x t
    (y.errorCount = 0 ↔ x.errorCount = 0 ∧ (mask.toNat.testBit t = true → Granted svc t)) ∧
      (y.anyTablesInMask = true ↔ x.anyTablesInMask = true ∨ mask.toNat.testBit t = true) ∧
      y.state.cmdCounter = x.state.cmdCounter ∧ y.state.errCounter = x.state.errCounter := by
  have hm : tableIsInMask (t + 1) mask = mask.toNat.testBit t := tableIsInMask_eq _ _
  simp only [switchTable, hm]
  by_cases hb : mask.toNat.testBit t = true
  · obtain ⟨hg, hc, he⟩ := updateTable_counters svc t
      (fun b => { b with enabled := enabled }) (.updateTblEnErr t)
      (x.state.setTable t (switchControl enabled countdown (x.state.dwellTables t)))
    rw [if_pos hb]
    refine ⟨?_, by simp [hb], ?_, ?_⟩
    · simp only [updateTableEnabledField, hb, forall_const]
      rw [← hg]
      split_ifs with hf
      · simp [hf]
      · simp [not_not.mp hf]
    · exact (report_counters _ _ _).1.trans hc
    · exact (report_counters _ _ _).2.trans he
  · rw [if_neg hb]
    simp [hb]

theorem switchTables_counts (svc : Services cfg) (mask : UInt16) (enabled countdown : ℕ)
    (report : Bool) (s : State cfg) :
    let y := switchTables svc mask enabled countdown report s
    (y.errorCount = 0 ↔ ∀ t : TblIndex cfg, mask.toNat.testBit t = true → Granted svc t) ∧
      (y.anyTablesInMask = true ↔ ∃ t : TblIndex cfg, mask.toNat.testBit t = true) ∧
      y.state.cmdCounter = s.cmdCounter ∧ y.state.errCounter = s.errCounter := by
  have main : ∀ (l : List (TblIndex cfg)) (x : MaskLoop cfg),
      let y := l.foldl (switchTable svc mask enabled countdown report) x
      (y.errorCount = 0 ↔
        x.errorCount = 0 ∧ ∀ t ∈ l, mask.toNat.testBit t = true → Granted svc t) ∧
      (y.anyTablesInMask = true ↔
        x.anyTablesInMask = true ∨ ∃ t ∈ l, mask.toNat.testBit t = true) ∧
      y.state.cmdCounter = x.state.cmdCounter ∧ y.state.errCounter = x.state.errCounter := by
    intro l
    induction l with
    | nil => simp
    | cons t l ih =>
      intro x
      obtain ⟨he, ha, hc, hr⟩ := switchTable_counts svc mask enabled countdown report x t
      obtain ⟨ihe, iha, ihc, ihr⟩ := ih (switchTable svc mask enabled countdown report x t)
      rw [List.foldl_cons]
      refine ⟨?_, ?_, ihc.trans hc, ihr.trans hr⟩
      · rw [ihe, he, List.forall_mem_cons, and_assoc]
      · rw [iha, ha, or_assoc]
        simp
  simpa [switchTables, MaskLoop.start] using main (List.finRange cfg.numDwellTables) (.start s)

theorem startDwellCmd_counted (svc : Services cfg) (p : CmdStartStopPayload) (s : State cfg) :
    Counted ((∃ t : TblIndex cfg, p.tableMask.toNat.testBit t = true) ∧
        ∀ t : TblIndex cfg, p.tableMask.toNat.testBit t = true → Granted svc t)
      s (startDwellCmd svc p s).2 := by
  obtain ⟨he, -, hc, hr⟩ := switchTables_counts svc p.tableMask dwellEnabled 1 true s
  have hany : anyTablesInMask cfg p.tableMask = true ↔
      ∃ t : TblIndex cfg, p.tableMask.toNat.testBit t = true := by
    rw [anyTablesInMask_iff]
    exact exists_congr fun t => by rw [tableIsInMask_eq, Nat.add_sub_cancel]
  simp only [startDwellCmd]
  split_ifs with ha hz
  · refine ⟨fun _ => ?_, fun h => absurd ⟨hany.mp ha, he.mp hz⟩ h⟩
    simp [hc, hr]
  · refine ⟨fun h => absurd (he.mpr h.2) hz, fun _ => ?_⟩
    simp [hc, hr]
  · exact (reject_counted _ s).congr (iff_of_false id fun h => ha (hany.mpr h.1))

theorem stopDwellCmd_counted (svc : Services cfg) (p : CmdStartStopPayload) (s : State cfg) :
    Counted ((∃ t : TblIndex cfg, p.tableMask.toNat.testBit t = true) ∧
        ∀ t : TblIndex cfg, p.tableMask.toNat.testBit t = true → Granted svc t)
      s (stopDwellCmd svc p s).2 := by
  obtain ⟨he, hany, hc, hr⟩ := switchTables_counts svc p.tableMask dwellDisabled 0 false s
  simp only [stopDwellCmd]
  split_ifs with ha hz
  · refine ⟨fun _ => ?_, fun h => absurd ⟨hany.mp ha, he.mp hz⟩ h⟩
    simp [hc, hr]
  · refine ⟨fun h => absurd (he.mpr h.2) hz, fun _ => ?_⟩
    simp [hc, hr]
  · refine ⟨fun h => absurd (hany.mpr h.1) ha, fun _ => ?_⟩
    simp [hc, hr]

theorem jamOutcome_counted (t : TblIndex cfg) (p : CmdJamPayload cfg) (done failed : EventMsg)
    (q : CFEStatus × State cfg) :
    Counted (q.1 = .success) q.2 (jamOutcome t p done failed q).2 := by
  simp only [jamOutcome, jamDone]
  split_ifs with hs hz
  · exact ⟨fun _ => ⟨rfl, rfl⟩, fun h => absurd hs h⟩
  · exact ⟨fun _ => ⟨rfl, rfl⟩, fun h => absurd hs h⟩
  · exact ⟨fun h => absurd h hs, fun _ => ⟨rfl, rfl⟩⟩

theorem jamWrite_isSome {svc : Services cfg} {p : CmdJamPayload cfg}
    (ht : ∃ t : TblIndex cfg, p.tableId.toNat = t + 1) :
    (jamWrite svc p).isSome = true ↔ JamArgumentsOk svc p := by
  have hid : validEntryId cfg p.entryId = true ↔
      1 ≤ p.entryId.toNat ∧ p.entryId.toNat ≤ cfg.dwellTableSize := by simp [validEntryId]
  rw [jamWrite]
  split_ifs with hv h0
  · exact iff_of_false (by simp) fun h => hv (hid.mpr h.entry)
  · exact iff_of_true rfl ⟨ht, hid.mp (not_not.mp hv), fun h => absurd h0 h⟩
  · cases hc : jamChecks svc p with
    | error e =>
      apply iff_of_false (by simp)
      intro h
      obtain ⟨a, hr, hl, hg, he, hd⟩ := h.address h0
      have hok := (jamChecks_ok h0 a).mpr ⟨hr, hl, hg, he, hd⟩
      rw [hc] at hok
      cases hok
    | ok a =>
      obtain ⟨hr, hd⟩ := (jamChecks_ok h0 a).mp hc
      exact iff_of_true rfl ⟨ht, hid.mp (not_not.mp hv),
        fun _ => ⟨a, hr, hd.length_ok, hd.range_ok, hd.even, hd.dword⟩⟩

theorem named_granted {svc : Services cfg} {tableId : UInt16} {t : TblIndex cfg}
    (ht : tableIndex cfg tableId = some t) :
    (∀ u : TblIndex cfg, tableId.toNat = u + 1 → Granted svc u) ↔ Granted svc t := by
  constructor
  · intro h
    exact h t (tableIndex_eq_some.mp ht)
  · intro h u hu
    rw [tableIndex_eq_some.mpr hu] at ht
    exact Option.some.inj ht ▸ h

theorem not_jamArgumentsOk {svc : Services cfg} {p : CmdJamPayload cfg}
    (h : tableIndex cfg p.tableId = none ∨ jamWrite svc p = none) : ¬ JamArgumentsOk svc p := by
  intro hok
  rcases h with ht | hw
  · obtain ⟨t, hid⟩ := hok.table
    rw [tableIndex_eq_some.mpr hid] at ht
    cases ht
  · have hsome := (jamWrite_isSome hok.table).mpr hok
    rw [hw] at hsome
    cases hsome

theorem jamArgumentsOk_of_write {svc : Services cfg} {p : CmdJamPayload cfg} {t : TblIndex cfg}
    {w : DwellControlEntry × TableLoadEntry cfg} (ht : tableIndex cfg p.tableId = some t)
    (hw : jamWrite svc p = some w) : JamArgumentsOk svc p :=
  (jamWrite_isSome ⟨t, tableIndex_eq_some.mp ht⟩).mp (by rw [hw]; rfl)

theorem jamDwellCmd_counted (svc : Services cfg) (p : CmdJamPayload cfg) (s : State cfg) :
    Counted (JamArgumentsOk svc p ∧
        ∀ t : TblIndex cfg, p.tableId.toNat = t + 1 → Granted svc t)
      s (jamDwellCmd svc p s).2 := by
  rcases jamDwellCmd_cases svc p s with
    ⟨hnone, e, heq⟩ | ⟨t, new, load, done, failed, ht, hw, heq⟩
  · rw [heq]
    exact (reject_counted e s).congr (iff_of_false id fun h => not_jamArgumentsOk hnone h.1)
  · obtain ⟨hg, hc, he⟩ := updateTable_counters svc t
      (fun b => { b with entry := Function.update b.entry (p.entryId.toNat - 1) load })
      (.updateTblDwellErr t) (writeEntry t (p.entryId.toNat - 1) new s)
    have hout := (jamOutcome_counted t p done failed _).of_counters hc he
    rw [heq, named_granted ht]
    exact hout.congr (hg.trans (and_iff_right (jamArgumentsOk_of_write ht hw)).symm)

theorem signOutcome_counted (done failed : EventMsg) (q : CFEStatus × State cfg) :
    Counted (q.1 = .success) q.2 (if q.1 = .success then (q.1, (q.2.sendEvent done).countCmd)
      else (q.1, (q.2.sendEvent failed).countErr)).2 := by
  split_ifs with hs
  · exact ⟨fun _ => ⟨rfl, rfl⟩, fun h => absurd hs h⟩
  · exact ⟨fun h => absurd h hs, fun _ => ⟨rfl, rfl⟩⟩

theorem setSignatureCmd_counted (svc : Services cfg) (p : CmdSetSignaturePayload cfg)
    (s : State cfg) :
    Counted ((p.signature.Terminated ∧ ∃ t : TblIndex cfg, p.tableId.toNat = t + 1) ∧
        ∀ t : TblIndex cfg, p.tableId.toNat = t + 1 → Granted svc t)
      s (setSignatureCmd svc p s).2 := by
  simp only [← CharField.scanNul_lt_iff, ← tableIndex_eq_some]
  rcases setSignatureCmd_cases svc p s with ⟨hn, e, heq⟩ | ⟨t, done, failed, hl, ht, heq⟩
  · rw [heq]
    exact (reject_counted e s).congr (iff_of_false id fun h => hn h.1)
  · obtain ⟨hg, hc, he⟩ := updateTable_counters svc t
      (fun b => { b with signature := b.signature.copyTerminated p.signature })
      (.updateTblSigErr t)
      (s.setTable t { s.dwellTables t with
        signature := (s.dwellTables t).signature.copyTerminated p.signature })
    have hout := (signOutcome_counted done failed _).of_counters hc he
    rw [heq]
    refine hout.congr (hg.trans ?_)
    simp [hl, ht]

section Codes

variable {svc : Services cfg} {msg : Message cfg} {t : TblIndex cfg}

theorem argumentsOk_switch (h : msg.fcnCode = startDwellCC ∨ msg.fcnCode = stopDwellCC) :
    ArgumentsOk svc msg ↔
      ∃ t : TblIndex cfg, msg.startStop.tableMask.toNat.testBit t = true := by
  constructor
  · intro ha
    exact ha.mask h
  · intro hm
    refine ⟨fun _ => hm, ?_, ?_⟩
    · rcases h with h | h <;> simp [h, startDwellCC, stopDwellCC, jamDwellCC]
    · rcases h with h | h <;> simp [h, startDwellCC, stopDwellCC, setSignatureCC]

theorem addresses_switch (h : msg.fcnCode = startDwellCC ∨ msg.fcnCode = stopDwellCC) :
    Addresses msg t ↔ msg.startStop.tableMask.toNat.testBit t = true := by
  rcases h with h | h
  · simp [Addresses, h, startDwellCC, jamDwellCC, setSignatureCC]
  · simp [Addresses, h, stopDwellCC, jamDwellCC, setSignatureCC]

theorem argumentsOk_jam (h : msg.fcnCode = jamDwellCC) :
    ArgumentsOk svc msg ↔ JamArgumentsOk svc msg.jam := by
  constructor
  · intro ha
    exact ha.jam h
  · intro hj
    refine ⟨?_, fun _ => hj, ?_⟩
    · simp [h, startDwellCC, stopDwellCC, jamDwellCC]
    · simp [h, jamDwellCC, setSignatureCC]

theorem addresses_jam (h : msg.fcnCode = jamDwellCC) :
    Addresses msg t ↔ msg.jam.tableId.toNat = t + 1 := by
  simp [Addresses, h, startDwellCC, stopDwellCC, jamDwellCC, setSignatureCC]

theorem argumentsOk_sign (h : msg.fcnCode = setSignatureCC) :
    ArgumentsOk svc msg ↔ msg.setSignature.signature.Terminated ∧
      ∃ t : TblIndex cfg, msg.setSignature.tableId.toNat = t + 1 := by
  constructor
  · intro ha
    exact ha.signature h
  · intro hs
    refine ⟨?_, ?_, fun _ => hs⟩
    · simp [h, startDwellCC, stopDwellCC, setSignatureCC]
    · simp [h, jamDwellCC, setSignatureCC]

theorem addresses_sign (h : msg.fcnCode = setSignatureCC) :
    Addresses msg t ↔ msg.setSignature.tableId.toNat = t + 1 := by
  simp [Addresses, h, startDwellCC, stopDwellCC, jamDwellCC, setSignatureCC]

end Codes

theorem processCommand_counted (svc : Services cfg) (msg : Message cfg) (s : State cfg)
    (hr : msg.fcnCode ≠ resetCntrsCC) :
    Counted (ArgumentsOk svc msg ∧ ∀ t, Addresses msg t → Granted svc t) s
      (processCommand svc msg s).2 := by
  rw [processCommand, if_neg hr]
  split_ifs with h2 h3 h4 h5
  · simp only [argumentsOk_switch (Or.inl h2), addresses_switch (Or.inl h2)]
    exact startDwellCmd_counted svc msg.startStop s
  · simp only [argumentsOk_switch (Or.inr h3), addresses_switch (Or.inr h3)]
    exact stopDwellCmd_counted svc msg.startStop s
  · simp only [argumentsOk_jam h4, addresses_jam h4]
    exact jamDwellCmd_counted svc msg.jam s
  · simp only [argumentsOk_sign h5, addresses_sign h5]
    exact setSignatureCmd_counted svc msg.setSignature s
  · have hok : ArgumentsOk svc msg := by
      refine ⟨?_, fun h => absurd h h4, fun h => absurd h h5⟩
      rintro (h | h)
      · exact absurd h h2
      · exact absurd h h3
    have hnone : ∀ t, Addresses msg t → Granted svc t := by
      rintro t (⟨h | h, -⟩ | ⟨h, -⟩ | ⟨h, -⟩)
      · exact absurd h h2
      · exact absurd h h3
      · exact absurd h h4
      · exact absurd h h5
    exact ⟨fun _ => ⟨rfl, rfl⟩, fun h => absurd ⟨hok, hnone⟩ h⟩

theorem execRequest_counted (svc : Services cfg) (msg : Message cfg) (s : State cfg)
    (hr : ¬(Dispatchable msg ∧ msg.fcnCode = resetCntrsCC)) :
    Counted (Dispatchable msg ∧ ArgumentsOk svc msg ∧ ∀ t, Addresses msg t → Granted svc t) s
      (execRequest svc msg s) := by
  have hw := wellFormed_iff msg
  rw [wellFormed] at hw
  rw [execRequest]
  cases hf : searchCmdHndlrTbl cfg msg.fcnCode with
  | none =>
    simp only [hf, Bool.false_eq_true, false_iff] at hw
    exact ⟨fun h => absurd h.1 hw, fun _ => ⟨rfl, rfl⟩⟩
  | some r =>
    simp only [hf, decide_eq_true_eq] at hw
    by_cases hl : msg.size = r.expectedLength
    · simp only [hl, ne_eq, not_true, if_false]
      have hd := hw.mp hl
      exact (processCommand_counted svc msg s fun h => hr ⟨hd, h⟩).congr (and_iff_right hd).symm
    · simp only [hl, ne_eq, not_false_iff, if_true]
      exact ⟨fun h => absurd (hw.mpr h.1) hl, fun _ => ⟨rfl, rfl⟩⟩

theorem execRequest_reset (svc : Services cfg) (msg : Message cfg) (s : State cfg)
    (hd : Dispatchable msg) (hr : msg.fcnCode = resetCntrsCC) :
    (execRequest svc msg s).cmdCounter = 0 ∧ (execRequest svc msg s).errCounter = 0 := by
  have hw := (wellFormed_iff msg).mpr hd
  rw [wellFormed] at hw
  rw [execRequest]
  cases hf : searchCmdHndlrTbl cfg msg.fcnCode with
  | none =>
    rw [hf] at hw
    cases hw
  | some r =>
    simp only [hf, decide_eq_true_eq] at hw
    simp only [hw, ne_eq, not_true, if_false, processCommand, hr, if_true]
    exact ⟨rfl, rfl⟩

/-- A message that is not dispatched, or has a wrong argument, does nothing to a stream. -/
theorem rejected_idle {svc : Services cfg} {msg : Message cfg}
    (h : ¬(Dispatchable msg ∧ ArgumentsOk svc msg)) (t : TblIndex cfg) :
    cmdOp svc msg t = .idle := by
  by_cases hd : Dispatchable msg
  · have hargs : ¬ ArgumentsOk svc msg := fun ha => h ⟨hd, ha⟩
    rw [cmdOp, if_pos ((wellFormed_iff msg).mpr hd)]
    have hmask : (msg.fcnCode = startDwellCC ∨ msg.fcnCode = stopDwellCC) →
        ¬ tableIsInMask (t + 1) msg.startStop.tableMask = true := by
      intro hc hm
      rw [tableIsInMask_eq, Nat.add_sub_cancel] at hm
      exact hargs ((argumentsOk_switch hc).mpr ⟨t, hm⟩)
    split_ifs with h2 h2' h3 h3' h4 h5
    · exact absurd h2' (hmask (Or.inl h2))
    · rfl
    · exact absurd h3' (hmask (Or.inr h3))
    · rfl
    · rw [jamOp]
      split_ifs with ht
      · cases hw : jamWrite svc msg.jam with
        | none => rfl
        | some w =>
          have hok := (jamWrite_isSome ⟨t, tableIndex_eq_some.mp ht⟩).mp (by rw [hw]; rfl)
          exact absurd ((argumentsOk_jam h4).mpr hok) hargs
      · rfl
    · rw [signOp]
      split_ifs with hs
      · have hok := (CharField.scanNul_lt_iff _).mp hs.1
        exact absurd ((argumentsOk_sign h5).mpr ⟨hok, t, tableIndex_eq_some.mp hs.2⟩) hargs
      · rfl
    · rfl
  · rw [cmdOp, if_neg fun hw => hd ((wellFormed_iff msg).mp hw)]

theorem execRequest_rejected {svc : Services cfg} {msg : Message cfg}
    (h : ¬(Dispatchable msg ∧ ArgumentsOk svc msg)) (s : State cfg) :
    (execRequest svc msg s).dwellTables = s.dwellTables ∧
      (execRequest svc msg s).dwellPkt = s.dwellPkt ∧
      (execRequest svc msg s).tblBuffer = s.tblBuffer := by
  have hs : ∀ t, stream (execRequest svc msg s) t = stream s t := by
    intro t
    have hstep := execRequest_step svc msg s t
    rw [rejected_idle h] at hstep
    exact hstep.1
  refine ⟨?_, ?_, ?_⟩
  · funext t
    exact congrArg Stream.control (hs t)
  · funext t
    exact congrArg Stream.pkt (hs t)
  · funext t
    exact congrArg Stream.buffer (hs t)

/-- What every ground command does to the counters, and that a rejected one does nothing
else. -/
theorem commands_counted (svc : Services cfg) (fuel : ℕ) (msg : Message cfg) (s : State cfg)
    (h : msg.msgId = .cmd) :
    ∃ s', processCommandPacket svc fuel (some msg) s = some (s', []) ∧
      (Dispatchable msg ∧ msg.fcnCode = resetCntrsCC → s'.cmdCounter = 0 ∧ s'.errCounter = 0) ∧
      (¬(Dispatchable msg ∧ msg.fcnCode = resetCntrsCC) →
        (Dispatchable msg ∧ ArgumentsOk svc msg ∧ (∀ t, Addresses msg t → Granted svc t) →
          s'.cmdCounter = (s.cmdCounter + 1) % 256 ∧ s'.errCounter = s.errCounter) ∧
        (¬(Dispatchable msg ∧ ArgumentsOk svc msg ∧ ∀ t, Addresses msg t → Granted svc t) →
          s'.cmdCounter = s.cmdCounter ∧ s'.errCounter = (s.errCounter + 1) % 256)) ∧
      (¬(Dispatchable msg ∧ ArgumentsOk svc msg) →
        s'.dwellTables = s.dwellTables ∧ s'.dwellPkt = s.dwellPkt ∧
          s'.tblBuffer = s.tblBuffer) := by
  refine ⟨execRequest svc msg s, by simp [processCommandPacket, h], ?_, ?_, ?_⟩
  · rintro ⟨hd, hr⟩
    exact execRequest_reset svc msg s hd hr
  · exact execRequest_counted svc msg s
  · intro hn
    exact execRequest_rejected hn s

theorem commands_counted_start :
    let config := smallConfig 3 (by decide) (by decide)
    let msg := { blankMsg config .cmd startDwellCC (config.cmdHeaderSize + 4) with
      startStop := ⟨1⟩ }
    ∃ s', processCommandPacket (smallServices config .success) 0 (some msg) (blankState config) =
        some (s', []) ∧ s'.cmdCounter = 1 ∧ s'.errCounter = 0 := by
  intro config msg
  obtain ⟨s', he, -, hcount, -⟩ :=
    commands_counted (smallServices config .success) 0 msg (blankState config) rfl
  obtain ⟨hdone, -⟩ := hcount (by simp [msg, blankMsg, startDwellCC, resetCntrsCC])
  refine ⟨s', he, hdone ⟨?_, ?_, ?_⟩⟩
  · exact ⟨⟨startDwellCC, config.cmdHeaderSize + 4⟩, by simp [cmdHandlerTbl], rfl, rfl⟩
  · exact (argumentsOk_switch (Or.inl rfl)).mpr ⟨⟨0, by decide⟩, by decide⟩
  · exact fun _ _ => Or.inl rfl

end CommandAccounting
