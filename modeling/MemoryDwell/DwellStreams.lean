import MemoryDwell.DwellRuns

/-! # Streams

A dwell table with its packet and its buffer is a stream. What a step of the application
does to a stream is one operation that depends on the step alone, and the operations on
different streams do not meet. Invariants are proved for one stream and its operations
and hold of the application through `step_stream`. -/
namespace DwellStreams

open DwellData DwellUtils DwellTbl DwellPkts DwellCmds DwellApp DwellDispatch DwellRuns
open FueledLoop TransitionRuns

variable {cfg : Config}

structure Stream (cfg : Config) where
  control : DwellPacketControl cfg
  pkt : DwellPkt cfg
  buffer : DwellTableLoad cfg

def stream (s : State cfg) (t : TblIndex cfg) : Stream cfg :=
  ⟨s.dwellTables t, s.dwellPkt t, s.tblBuffer t⟩

inductive StreamOp (cfg : Config) where
  | idle
  | start (granted : Bool)
  | stop (granted : Bool)
  | jam (entry : ℕ) (new : DwellControlEntry) (load : TableLoadEntry cfg) (granted : Bool)
  | sign (signature : CharField cfg.signatureFieldLength) (granted : Bool)
  | load (tbl : DwellTableLoad cfg) (copied : Bool)
  | pass

/-- Cases of an operation, with the answer of Table Services where the entries depend on it. -/
@[elab_as_elim]
def StreamOp.byAnswer {motive : StreamOp cfg → Sort*} (idle : motive .idle)
    (start : ∀ granted, motive (.start granted)) (stop : ∀ granted, motive (.stop granted))
    (granted : ∀ e new load, motive (.jam e new load true))
    (refused : ∀ e new load, motive (.jam e new load false))
    (sign : ∀ signature granted, motive (.sign signature granted))
    (copied : ∀ tbl, motive (.load tbl true)) (kept : ∀ tbl, motive (.load tbl false))
    (pass : motive .pass) : ∀ op, motive op
  | .idle => idle
  | .start g => start g
  | .stop g => stop g
  | .jam e new b true => granted e new b
  | .jam e new b false => refused e new b
  | .sign signature g => sign signature g
  | .load tbl true => copied tbl
  | .load tbl false => kept tbl
  | .pass => pass

def setEnabled (enabled countdown : ℕ) (granted : Bool) (x : Stream cfg) : Stream cfg :=
  { x with
    control := switchControl enabled countdown x.control
    buffer := if granted then { x.buffer with enabled := enabled } else x.buffer }

def written (c : DwellPacketControl cfg) (e : ℕ) (new : DwellControlEntry) :
    DwellPacketControl cfg := { c with entry := Function.update c.entry e new }

/-- A refused Jam has written the local entry, and the summary stays as it was. -/
def jamEntry (e : ℕ) (new : DwellControlEntry) (load : TableLoadEntry cfg) (granted : Bool)
    (x : Stream cfg) : Stream cfg :=
  if granted then
    { x with
      control := updateDwellControlInfo (written x.control e new)
      buffer := { x.buffer with entry := Function.update x.buffer.entry e load } }
  else { x with control := written x.control e new }

def setSignature (signature : CharField cfg.signatureFieldLength) (granted : Bool)
    (x : Stream cfg) : Stream cfg :=
  { x with
    control := { x.control with signature := x.control.signature.copyTerminated signature }
    buffer :=
      if granted then { x.buffer with signature := x.buffer.signature.copyTerminated signature }
      else x.buffer }

def adopt (r : Resolver) (tbl : DwellTableLoad cfg) (c : DwellPacketControl cfg) :
    DwellPacketControl cfg :=
  let c := updateDwellControlInfo (copiedUpTo r tbl c cfg.dwellTableSize)
  if tbl.enabled = dwellEnabled then startDwellStream c else c

theorem adopt_contents (r : Resolver) (tbl : DwellTableLoad cfg) (c : DwellPacketControl cfg) :
    SameContents (updateDwellControlInfo (copiedUpTo r tbl c cfg.dwellTableSize))
      (adopt r tbl c) := by
  rw [adopt]
  split_ifs <;> exact ⟨rfl, rfl, rfl, rfl, rfl, rfl⟩

def install (r : Resolver) (tbl : DwellTableLoad cfg) (copied : Bool) (x : Stream cfg) :
    Stream cfg :=
  { x with control := if copied then adopt r tbl x.control else x.control, buffer := tbl }

/-- The operation on one stream, with what it did; only a pass does anything visible. -/
def StreamStep (svc : Services cfg) (t : TblIndex cfg) (x : Stream cfg) (acts : List (Action cfg))
    (y : Stream cfg) : StreamOp cfg → Prop
  | .idle => y = x ∧ acts = []
  | .start granted => y = setEnabled dwellEnabled 1 granted x ∧ acts = []
  | .stop granted => y = setEnabled dwellDisabled 0 granted x ∧ acts = []
  | .jam e new load granted => y = jamEntry e new load granted x ∧ acts = []
  | .sign signature granted => y = setSignature signature granted x ∧ acts = []
  | .load tbl copied =>
    y = install svc.toResolver tbl copied x ∧ acts = [] ∧
      (copied = true → cfg.dwellTableSize ≤ 255)
  | .pass => ∃ fuel p, dwellTable svc fuel t (.start x.control x.pkt) = some p ∧
      y = { x with control := p.control, pkt := p.pkt } ∧ acts = p.actions

theorem lengths_written (c : DwellPacketControl cfg) (e : ℕ) (new : DwellControlEntry) :
    lengths (written c e new) = Function.update (lengths c) e new.length := by
  funext i
  by_cases h : i = e
  · simp [lengths, written, h]
  · simp [lengths, written, h]

theorem delays_written (c : DwellPacketControl cfg) (e : ℕ) (new : DwellControlEntry) :
    delays (written c e new) = Function.update (delays c) e new.delay := by
  funext i
  by_cases h : i = e
  · simp [delays, written, h]
  · simp [delays, written, h]

/-! ## The operation a step performs -/

/-- The entries an accepted Jam writes, locally and into the buffer. -/
def jamWrite (svc : Services cfg) (p : CmdJamPayload cfg) :
    Option (DwellControlEntry × TableLoadEntry cfg) :=
  if validEntryId cfg p.entryId ≠ true then none
  else if p.fieldLength = 0 then some (nullControlEntry, ⟨0, 0, nullDwellAddress cfg⟩)
  else
    match jamChecks svc p with
    | .error _ => none
    | .ok addr =>
      some (⟨p.fieldLength, p.dwellDelay, addr⟩,
        ⟨p.fieldLength, p.dwellDelay,
          p.dwellAddress.offset, svc.messageStringGet p.dwellAddress.symName⟩)

theorem jamWrite_cases {svc : Services cfg} {p : CmdJamPayload cfg} {new : DwellControlEntry}
    {load : TableLoadEntry cfg} (h : jamWrite svc p = some (new, load)) :
    (new = nullControlEntry ∧ load = ⟨0, 0, nullDwellAddress cfg⟩) ∨
    ∃ a, p.fieldLength ≠ 0 ∧ jamChecks svc p = .ok a ∧
      new = ⟨p.fieldLength, p.dwellDelay, a⟩ ∧
      load = ⟨p.fieldLength, p.dwellDelay, p.dwellAddress.offset,
        svc.messageStringGet p.dwellAddress.symName⟩ := by
  rw [jamWrite] at h
  split_ifs at h with h1 h0
  · cases h
    exact Or.inl ⟨rfl, rfl⟩
  · cases hc : jamChecks svc p with
    | error e =>
      rw [hc] at h
      cases h
    | ok a =>
      rw [hc] at h
      cases h
      exact Or.inr ⟨a, h0, rfl, rfl, rfl⟩

theorem jamDwellCmd_cases (svc : Services cfg) (p : CmdJamPayload cfg) (s : State cfg) :
    ((tableIndex cfg p.tableId = none ∨ jamWrite svc p = none) ∧
      ∃ e, jamDwellCmd svc p s = reject e s) ∨
    ∃ t new load done failed, tableIndex cfg p.tableId = some t ∧
      jamWrite svc p = some (new, load) ∧ jamDwellCmd svc p s = jamOutcome t p done failed
        (updateTableDwellEntry svc t (p.entryId.toNat - 1) load.length load.delay
          load.dwellAddress (writeEntry t (p.entryId.toNat - 1) new s)) := by
  simp only [jamDwellCmd, jamWrite]
  cases tableIndex cfg p.tableId with
  | none => exact Or.inl ⟨Or.inl rfl, _, rfl⟩
  | some t =>
    by_cases hv : validEntryId cfg p.entryId = true
    · by_cases h0 : p.fieldLength = 0
      · simp only [hv, h0, not_true, if_false, if_true, ne_eq]
        exact Or.inr ⟨t, _, _, _, _, rfl, rfl, rfl⟩
      · cases jamChecks svc p with
        | error e =>
          simp only [hv, h0, not_true, if_false, ne_eq]
          exact Or.inl ⟨Or.inr trivial, e, rfl⟩
        | ok a =>
          simp only [hv, h0, not_true, if_false, ne_eq]
          exact Or.inr ⟨t, _, _, _, _, rfl, rfl, rfl⟩
    · have hv' : validEntryId cfg p.entryId ≠ true := hv
      exact Or.inl ⟨Or.inr (if_pos hv'), _, if_pos hv'⟩

def jamOp (svc : Services cfg) (p : CmdJamPayload cfg) (t : TblIndex cfg) : StreamOp cfg :=
  if tableIndex cfg p.tableId = some t then
    match jamWrite svc p with
    | none => .idle
    | some (new, load) => .jam (p.entryId.toNat - 1) new load (Granted svc t)
  else .idle

def signOp (svc : Services cfg) (p : CmdSetSignaturePayload cfg) (t : TblIndex cfg) :
    StreamOp cfg :=
  if p.signature.scanNul < cfg.signatureFieldLength ∧ tableIndex cfg p.tableId = some t then
    .sign p.signature (Granted svc t)
  else .idle

theorem setSignatureCmd_cases (svc : Services cfg) (p : CmdSetSignaturePayload cfg)
    (s : State cfg) :
    (¬(p.signature.scanNul < cfg.signatureFieldLength ∧ ∃ t, tableIndex cfg p.tableId = some t) ∧
      ∃ e, setSignatureCmd svc p s = reject e s) ∨
    ∃ t done failed, p.signature.scanNul < cfg.signatureFieldLength ∧
      tableIndex cfg p.tableId = some t ∧
      let q := updateTableSignature svc t p.signature (s.setTable t { s.dwellTables t with
        signature := (s.dwellTables t).signature.copyTerminated p.signature })
      setSignatureCmd svc p s =
        if q.1 = .success then (q.1, (q.2.sendEvent done).countCmd)
        else (q.1, (q.2.sendEvent failed).countErr) := by
  simp only [setSignatureCmd]
  by_cases hl : p.signature.scanNul < cfg.signatureFieldLength
  · rw [if_neg (by omega)]
    cases tableIndex cfg p.tableId with
    | none => exact Or.inl ⟨by simp, _, rfl⟩
    | some t => exact Or.inr ⟨t, _, _, hl, rfl, rfl⟩
  · rw [if_pos (by omega)]
    exact Or.inl ⟨fun h => hl h.1, _, rfl⟩

/-- The command a message carries, if its code is known and its length is right. -/
def wellFormed (msg : Message cfg) : Bool :=
  match searchCmdHndlrTbl cfg msg.fcnCode with
  | none => false
  | some r => msg.size = r.expectedLength

def cmdOp (svc : Services cfg) (msg : Message cfg) (t : TblIndex cfg) : StreamOp cfg :=
  if wellFormed msg then
    if msg.fcnCode = startDwellCC then
      if tableIsInMask (t + 1) msg.startStop.tableMask then .start (Granted svc t) else .idle
    else if msg.fcnCode = stopDwellCC then
      if tableIsInMask (t + 1) msg.startStop.tableMask then .stop (Granted svc t) else .idle
    else if msg.fcnCode = jamDwellCC then jamOp svc msg.jam t
    else if msg.fcnCode = setSignatureCC then signOp svc msg.setSignature t
    else .idle
  else .idle

def installOp (t : TblIndex cfg) : List (Action cfg) → StreamOp cfg
  | .install u tbl copied :: _ => if u = t then .load tbl copied else .idle
  | _ => .idle

/-- The operation of a step on the stream of table `t`. -/
def opOf (l : Label cfg) (t : TblIndex cfg) : StreamOp cfg :=
  match l.input with
  | .manage _ _ => installOp t l.actions
  | .message none => .idle
  | .message (some msg) =>
    match msg.msgId with
    | .wakeup => if msg.size = bareMsgLength cfg then .pass else .idle
    | .cmd => cmdOp l.services msg t
    | .sendHk | .other _ => .idle

/-! ## Each handler performs it -/

section Projections

variable (s : State cfg) (e : EventMsg) (t u : TblIndex cfg) (c : DwellPacketControl cfg)
  (b : DwellTableLoad cfg)

@[simp] theorem stream_sendEvent : stream (s.sendEvent e) t = stream s t := rfl
@[simp] theorem stream_countCmd : stream s.countCmd t = stream s t := rfl
@[simp] theorem stream_countErr : stream s.countErr t = stream s t := rfl

theorem stream_ite (p : Prop) [Decidable p] (s s' : State cfg) (u : TblIndex cfg) :
    stream (if p then s else s') u = if p then stream s u else stream s' u :=
  apply_ite (fun s => stream s u) p s s'

theorem stream_setTable :
    stream (s.setTable t c) u = if u = t then { stream s t with control := c } else stream s u := by
  split_ifs with h
  · subst h
    simp [stream]
  · simp [stream, State.setTable_ne s t u c h]

theorem stream_setBuffer :
    stream (s.setBuffer t b) u = if u = t then { stream s t with buffer := b } else stream s u := by
  split_ifs with h
  · subst h
    simp [stream]
  · simp [stream, State.setBuffer_ne s t u b h]

end Projections

theorem updateTable_stream (svc : Services cfg) (t u : TblIndex cfg)
    (edit : DwellTableLoad cfg → DwellTableLoad cfg) (refused : CFEStatus → EventMsg)
    (s : State cfg) :
    stream (updateTable svc t edit refused s).2 u =
      if u = t ∧ Granted svc t then { stream s t with buffer := edit (s.tblBuffer t) }
      else stream s u := by
  rw [updateTable_eq]
  by_cases hg : Granted svc t
  · simp [hg, stream_setBuffer]
  · simp [hg]

theorem switchTable_stream (svc : Services cfg) (mask : UInt16) (enabled countdown : ℕ)
    (report : Bool) (x : MaskLoop cfg) (t u : TblIndex cfg) :
    stream (switchTable svc mask enabled countdown report x t).state u =
      if u = t ∧ tableIsInMask (t + 1) mask then
        setEnabled enabled countdown (Granted svc t) (stream x.state t)
      else stream x.state u := by
  rw [switchTable]
  by_cases hm : tableIsInMask (t + 1) mask = true
  · simp only [hm, and_true, if_true]
    rw [stream_ite]
    simp only [stream_sendEvent, ite_self, updateTableEnabledField, updateTable_stream,
      stream_setTable]
    by_cases hu : u = t
    · subst hu
      by_cases hg : Granted svc u
      · simp [hg, setEnabled, stream]
      · simp [hg, setEnabled, stream]
    · simp [hu]
  · simp [hm]

theorem switchTables_stream (svc : Services cfg) (mask : UInt16) (enabled countdown : ℕ)
    (report : Bool) (s : State cfg) (u : TblIndex cfg) :
    stream (switchTables svc mask enabled countdown report s).state u =
      if tableIsInMask (u + 1) mask then
        setEnabled enabled countdown (Granted svc u) (stream s u)
      else stream s u := by
  exact foldl_component (p := fun x : MaskLoop cfg => stream x.state)
    (g := fun x => if tableIsInMask (u + 1) mask then
      setEnabled enabled countdown (Granted svc u) x else x)
    (fun x i j hj => by rw [switchTable_stream, if_neg (fun h => hj h.1)])
    (fun x => by rw [switchTable_stream]; simp)
    (List.nodup_finRange _) (List.mem_finRange u) (.start s)

theorem anyTablesInMask_iff (mask : UInt16) :
    anyTablesInMask cfg mask = true ↔ ∃ t : TblIndex cfg, tableIsInMask (t + 1) mask = true := by
  simp [anyTablesInMask]

theorem startDwellCmd_stream (svc : Services cfg) (p : CmdStartStopPayload) (s : State cfg)
    (u : TblIndex cfg) :
    stream (startDwellCmd svc p s).2 u =
      if tableIsInMask (u + 1) p.tableMask then
        setEnabled dwellEnabled 1 (Granted svc u) (stream s u)
      else stream s u := by
  simp only [startDwellCmd]
  split_ifs with ha he hm hm hm
  all_goals try simp only [stream_sendEvent, stream_countCmd, stream_countErr, switchTables_stream]
  · rw [if_pos hm]
  · rw [if_neg hm]
  · rw [if_pos hm]
  · rw [if_neg hm]
  · exact absurd ((anyTablesInMask_iff _).mpr ⟨u, hm⟩) ha
  · rfl

theorem stopDwellCmd_stream (svc : Services cfg) (p : CmdStartStopPayload) (s : State cfg)
    (u : TblIndex cfg) :
    stream (stopDwellCmd svc p s).2 u =
      if tableIsInMask (u + 1) p.tableMask then
        setEnabled dwellDisabled 0 (Granted svc u) (stream s u)
      else stream s u := by
  simp only [stopDwellCmd]
  split_ifs <;>
    simp_all only [stream_sendEvent, stream_countCmd, stream_countErr, switchTables_stream,
      if_true, if_false, Bool.false_eq_true]

theorem jamOutcome_stream (svc : Services cfg) (t u : TblIndex cfg) (p : CmdJamPayload cfg)
    (done failed : EventMsg) (e : ℕ) (new : DwellControlEntry) (load : TableLoadEntry cfg)
    (s : State cfg) :
    stream (jamOutcome t p done failed (updateTableDwellEntry svc t e load.length load.delay
      load.dwellAddress (writeEntry t e new s))).2 u =
      if u = t then jamEntry e new load (Granted svc t) (stream s t) else stream s u := by
  have hdone : ∀ s : State cfg, stream (jamDone t p.tableId s) u =
      if u = t then { stream s t with control := updateDwellControlInfo (s.dwellTables t) }
      else stream s u := by
    intro s
    simp only [jamDone]
    split_ifs <;> simp_all [stream_setTable]
  by_cases hg : Granted svc t
  · simp only [updateTableDwellEntry, updateTable_eq, if_pos hg, jamOutcome, if_true, hdone,
      stream_sendEvent, stream_setBuffer, writeEntry, stream_setTable]
    split_ifs with hu
    · simp [jamEntry, written, hg, stream]
    · rfl
  · have hne : svc.getAddress t ≠ .success := fun h => hg (Or.inl h)
    simp only [updateTableDwellEntry, updateTable_eq, if_neg hg, jamOutcome, if_neg hne,
      stream_sendEvent, stream_countErr, writeEntry, stream_setTable]
    split_ifs with hu
    · simp [jamEntry, written, hg, stream]
    · rfl

theorem jamOutcome_step (svc : Services cfg) {t u : TblIndex cfg} (p : CmdJamPayload cfg)
    (done failed : EventMsg) (e : ℕ) (new : DwellControlEntry) (load : TableLoadEntry cfg)
    (s : State cfg) :
    StreamStep svc u (stream s u) []
      (stream (jamOutcome t p done failed (updateTableDwellEntry svc t e load.length load.delay
        load.dwellAddress (writeEntry t e new s))).2 u)
      (if t = u then .jam e new load (Granted svc t) else .idle) := by
  rw [jamOutcome_stream]
  by_cases h : t = u
  · subst h
    simp [StreamStep]
  · simp [StreamStep, h, Ne.symm h]

theorem jamDwellCmd_step (svc : Services cfg) (p : CmdJamPayload cfg) (s : State cfg)
    (u : TblIndex cfg) :
    StreamStep svc u (stream s u) [] (stream (jamDwellCmd svc p s).2 u) (jamOp svc p u) := by
  rw [jamOp]
  rcases jamDwellCmd_cases svc p s with
    ⟨hnone, e, heq⟩ | ⟨t, new, load, done, failed, ht, hw, heq⟩
  · rw [heq]
    have hidle : (if tableIndex cfg p.tableId = some u then
        match jamWrite svc p with
        | none => .idle
        | some (new, load) => .jam (p.entryId.toNat - 1) new load (Granted svc u)
      else .idle) = StreamOp.idle := by
      rcases hnone with ht | hw
      · simp [ht]
      · simp [hw]
    rw [hidle]
    exact ⟨rfl, rfl⟩
  · have hj := jamOutcome_step svc (t := t) (u := u) p done failed (p.entryId.toNat - 1) new load s
    rw [heq, ht, hw]
    simp only [Option.some.injEq]
    by_cases h : t = u
    · subst h
      exact hj
    · rw [if_neg h] at hj ⊢
      exact hj

theorem setSignatureCmd_step (svc : Services cfg) (p : CmdSetSignaturePayload cfg)
    (s : State cfg) (u : TblIndex cfg) :
    StreamStep svc u (stream s u) [] (stream (setSignatureCmd svc p s).2 u)
      (signOp svc p u) := by
  rw [signOp]
  rcases setSignatureCmd_cases svc p s with ⟨hn, e, heq⟩ | ⟨t, done, failed, hl, ht, heq⟩
  · rw [heq, if_neg fun h => hn ⟨h.1, u, h.2⟩]
    exact ⟨rfl, rfl⟩
  · have hs : ∀ e e' : EventMsg, ∀ q : CFEStatus × State cfg,
        stream (if q.1 = .success then (q.1, (q.2.sendEvent e).countCmd)
          else (q.1, (q.2.sendEvent e').countErr)).2 u = stream q.2 u := by
      intro e e' q
      split_ifs <;> rfl
    simp only [ht, Option.some.injEq, hl, true_and]
    rw [heq, hs, updateTableSignature, updateTable_stream, stream_setTable, stream_setTable]
    by_cases h : t = u
    · subst h
      by_cases hg : Granted svc t <;> simp [StreamStep, setSignature, hg, stream]
    · simp [StreamStep, h, Ne.symm h]

theorem processCommand_step (svc : Services cfg) (msg : Message cfg) (s : State cfg)
    (hw : wellFormed msg = true) (u : TblIndex cfg) :
    StreamStep svc u (stream s u) [] (stream (processCommand svc msg s).2 u)
      (cmdOp svc msg u) := by
  rw [cmdOp, if_pos hw]
  rw [processCommand]
  by_cases h1 : msg.fcnCode = resetCntrsCC
  · simp only [h1, resetCntrsCC, startDwellCC, stopDwellCC, jamDwellCC, setSignatureCC]
    exact ⟨rfl, rfl⟩
  rw [if_neg h1]
  by_cases h2 : msg.fcnCode = startDwellCC
  · rw [if_pos h2, if_pos h2, startDwellCmd_stream]
    split_ifs <;> exact ⟨rfl, rfl⟩
  rw [if_neg h2, if_neg h2]
  by_cases h3 : msg.fcnCode = stopDwellCC
  · rw [if_pos h3, if_pos h3, stopDwellCmd_stream]
    split_ifs <;> exact ⟨rfl, rfl⟩
  rw [if_neg h3, if_neg h3]
  by_cases h4 : msg.fcnCode = jamDwellCC
  · rw [if_pos h4, if_pos h4]
    exact jamDwellCmd_step svc msg.jam s u
  rw [if_neg h4, if_neg h4]
  by_cases h5 : msg.fcnCode = setSignatureCC
  · rw [if_pos h5, if_pos h5]
    exact setSignatureCmd_step svc msg.setSignature s u
  · rw [if_neg h5, if_neg h5]
    exact ⟨rfl, rfl⟩

theorem execRequest_step (svc : Services cfg) (msg : Message cfg) (s : State cfg)
    (u : TblIndex cfg) :
    StreamStep svc u (stream s u) [] (stream (execRequest svc msg s) u) (cmdOp svc msg u) := by
  rw [execRequest]
  cases hs : searchCmdHndlrTbl cfg msg.fcnCode with
  | none =>
    simp only [cmdOp, wellFormed, hs, Bool.false_eq_true, if_false]
    exact ⟨rfl, rfl⟩
  | some r =>
    by_cases hl : msg.size = r.expectedLength
    · simp only [hl, ne_eq, not_true, if_false]
      exact processCommand_step svc msg s (by simp [wellFormed, hs, hl]) u
    · simp only [cmdOp, wellFormed, hs, hl, ne_eq, not_false_iff, if_true, decide_false,
        Bool.false_eq_true, if_false]
      exact ⟨rfl, rfl⟩

theorem copyAndStart_some {r : Resolver} {fuel : ℕ} {t : TblIndex cfg} {s s' : State cfg}
    (h : copyAndStart r fuel t s = some s') :
    cfg.dwellTableSize ≤ 255 ∧ s' = s.setTable t (adopt r (s.tblBuffer t) (s.dwellTables t)) := by
  rw [copyAndStart, Option.map_eq_some_iff] at h
  obtain ⟨c, hc, rfl⟩ := h
  obtain ⟨hn, rfl⟩ := copyUpdatedTbl_some hc
  exact ⟨hn, rfl⟩

theorem copyAndStart_eq (r : Resolver) (hn : cfg.dwellTableSize ≤ 255) {fuel : ℕ}
    (hf : cfg.dwellTableSize < fuel) (t : TblIndex cfg) (s : State cfg) :
    copyAndStart r fuel t s =
      some (s.setTable t (adopt r (s.tblBuffer t) (s.dwellTables t))) := by
  rw [copyAndStart, copyUpdatedTbl_eq _ _ _ hn hf]
  rfl

theorem copyAndStart_diverges (r : Resolver) (hn : 256 ≤ cfg.dwellTableSize) (fuel : ℕ)
    (t : TblIndex cfg) (s : State cfg) : copyAndStart r fuel t s = none := by
  rw [copyAndStart, copyUpdatedTbl_diverges _ _ _ hn]
  rfl

theorem stream_install {s : State cfg} {t u : TblIndex cfg} {tbl : DwellTableLoad cfg}
    (r : Resolver) (copied : Bool) :
    stream ((s.setBuffer t tbl).setTable t
      (if copied then adopt r tbl (s.dwellTables t) else s.dwellTables t)) u =
      if u = t then install r tbl copied (stream s t) else stream s u := by
  rw [stream_setTable, stream_setBuffer, stream_setBuffer, if_pos rfl]
  by_cases hu : u = t
  · rw [if_pos hu, if_pos hu]
    cases copied <;> rfl
  · rw [if_neg hu, if_neg hu, if_neg hu]

/-- Table Services has put `tbl` into the buffer at the request of the application, and
`copied` tells whether the address it gave out then carried the news. -/
def Updates {W : Type} (calls : ManageCalls cfg W) (tbl : DwellTableLoad cfg) (copied : Bool) :
    Prop :=
  ∃ w, (calls.update w).1 = .success ∧ tbl = calls.loaded (calls.update w).2 ∧
    (copied = true ↔ (calls.getAddress (calls.update w).2).1 = .tblInfoUpdated)

/-- What a call of MD_ManageDwellTable may come to: nothing, a table installed behind
the application's back, or a table installed and copied. -/
theorem manageLoop_cases {W : Type} {r : Resolver} {calls : ManageCalls cfg W} {copyFuel : ℕ}
    {t : TblIndex cfg} {s : State cfg} {fuel : ℕ} {w : W} {m : Managed cfg W}
    (h : manageLoop r calls copyFuel t s fuel w = some m) :
    (m.actions = [] ∧ ∀ u, stream m.state u = stream s u) ∨
    (∃ tbl copied, m.actions = [.install t tbl copied] ∧ Updates calls tbl copied ∧
      (copied = true → cfg.dwellTableSize ≤ 255) ∧
      ∀ u, stream m.state u = if u = t then install r tbl copied (stream s t) else stream s u) := by
  induction fuel generalizing w with
  | zero => cases h
  | succ fuel ih =>
    simp only [manageLoop] at h
    split_ifs at h with hp hv hu he
    · cases h
      exact Or.inl ⟨rfl, fun _ => rfl⟩
    · exact ih h
    · simp only [updateFromLoad] at h
      split_ifs at h with hs hg
      · rw [Option.map_eq_some_iff] at h
        obtain ⟨s', hs', rfl⟩ := h
        obtain ⟨hn, rfl⟩ := copyAndStart_some hs'
        refine Or.inr ⟨_, true, rfl, ⟨_, hs, rfl, iff_of_true rfl hg⟩, fun _ => hn, fun u => ?_⟩
        rw [← stream_install, State.setBuffer_self]
        rfl
      · cases h
        refine Or.inr ⟨_, false, rfl, ⟨_, hs, rfl, iff_of_false (by simp) hg⟩, by simp,
          fun u => ?_⟩
        rw [stream_sendEvent, stream_setBuffer]
        rfl
      · cases h
        exact Or.inl ⟨rfl, fun _ => rfl⟩
    · cases h
      exact Or.inl ⟨rfl, fun _ => rfl⟩
    · cases h
      exact Or.inl ⟨rfl, fun _ => rfl⟩

theorem manage_step {svc : Services cfg} {calls : ManageCalls cfg ℕ} {fuel : ℕ}
    {t u : TblIndex cfg} {w : ℕ} {s : State cfg} {m : Managed cfg ℕ}
    (h : manageDwellTable svc.toResolver calls fuel t w s = some m) :
    StreamStep svc u (stream s u) (actionsOf u m.actions) (stream m.state u)
      (installOp u m.actions) := by
  rcases manageLoop_cases h with ⟨ha, hm⟩ | ⟨tbl, copied, ha, -, hn, hm⟩
  · rw [ha, hm]
    exact ⟨rfl, rfl⟩
  · rw [ha, hm]
    by_cases ht : u = t
    · subst ht
      simp only [installOp, if_true]
      exact ⟨rfl, rfl, hn⟩
    · simp only [installOp, if_neg ht, if_neg (Ne.symm ht)]
      exact ⟨rfl, rfl⟩

/-- What a step of the application does to a stream. -/
theorem exec_stream {s s' : State cfg} {l : Label cfg} {fuel : ℕ}
    (h : exec fuel s (l.services, l.input) = some (l, s')) (t : TblIndex cfg) :
    StreamStep l.services t (stream s t) (actionsOf t l.actions) (stream s' t) (opOf l t) := by
  obtain ⟨svc, input, actions⟩ := l
  cases input with
  | manage u calls =>
    simp only [exec, Option.map_eq_some_iff, Prod.mk.injEq, Label.mk.injEq, true_and] at h
    obtain ⟨m, hm, rfl, rfl⟩ := h
    exact manage_step hm
  | message bufPtr =>
    simp only [exec, Option.map_eq_some_iff, Prod.mk.injEq, Label.mk.injEq, true_and] at h
    obtain ⟨⟨v, as⟩, hv, rfl, rfl⟩ := h
    cases bufPtr with
    | none =>
      cases hv
      exact ⟨rfl, rfl⟩
    | some msg =>
      simp only [processCommandPacket] at hv
      simp only [opOf]
      cases hid : msg.msgId with
      | wakeup =>
        simp only [hid] at hv
        split_ifs at hv with hl
        · cases hv
          simp only [hl, if_false]
          exact ⟨rfl, rfl⟩
        · rw [Option.map_eq_some_iff] at hv
          obtain ⟨w, hw, hv⟩ := hv
          cases hv
          obtain ⟨p, hp, hc, hk, ha⟩ := dwellLoop_stream hw t
          rw [if_pos (not_not.mp hl)]
          refine ⟨fuel, p, hp, ?_, ha⟩
          simp [stream, hc, hk, (dwellLoop_rest hw).2.2.2]
      | cmd =>
        simp only [hid] at hv
        cases hv
        exact execRequest_step svc msg s t
      | sendHk =>
        simp only [hid] at hv
        split_ifs at hv
        · cases hv
          exact ⟨rfl, rfl⟩
        · cases hv
          exact ⟨rfl, rfl⟩
      | other v =>
        simp only [hid] at hv
        cases hv
        exact ⟨rfl, rfl⟩

/-! ## Where the operations come from -/

/-- What a step owes to its message: the entry of a Jam is a checked one at a place inside
the table, a new signature is terminated, and the buffer is updated if access is granted. -/
def OpSound (svc : Services cfg) (t : TblIndex cfg) : StreamOp cfg → Prop
  | .start granted | .stop granted => granted = decide (Granted svc t)
  | .jam e new load granted =>
    granted = decide (Granted svc t) ∧ e < cfg.dwellTableSize ∧
      ∃ p, jamWrite svc p = some (new, load)
  | .sign signature granted => granted = decide (Granted svc t) ∧ signature.Terminated
  | .idle | .load _ _ | .pass => True

theorem jamWrite_entryId {svc : Services cfg} {p : CmdJamPayload cfg}
    {w : DwellControlEntry × TableLoadEntry cfg} (h : jamWrite svc p = some w) :
    p.entryId.toNat - 1 < cfg.dwellTableSize := by
  have hv : validEntryId cfg p.entryId = true := by
    by_contra hv
    rw [jamWrite, if_pos hv] at h
    cases h
  simp only [validEntryId, Bool.and_eq_true, decide_eq_true_eq] at hv
  omega

theorem cmdOp_sound (svc : Services cfg) (msg : Message cfg) (t : TblIndex cfg) :
    OpSound svc t (cmdOp svc msg t) := by
  rw [cmdOp]
  split_ifs
  · rfl
  · trivial
  · rfl
  · trivial
  · rw [jamOp]
    split_ifs
    · cases hw : jamWrite svc msg.jam with
      | none => trivial
      | some w => exact ⟨rfl, jamWrite_entryId hw, msg.jam, hw⟩
    · trivial
  · rw [signOp]
    split_ifs with hs
    · exact ⟨rfl, (CharField.scanNul_lt_iff _).mp hs.1⟩
    · trivial
  · trivial
  · trivial

theorem opOf_sound (l : Label cfg) (t : TblIndex cfg) : OpSound l.services t (opOf l t) := by
  rw [opOf]
  split
  · unfold installOp
    split
    · split_ifs <;> trivial
    · trivial
  · trivial
  · split
    · split_ifs <;> trivial
    · exact cmdOp_sound _ _ t
    · trivial
    · trivial

theorem message_no_load (svc : Services cfg) (bufPtr : Option (Message cfg))
    (actions : List (Action cfg)) (t : TblIndex cfg) (tbl : DwellTableLoad cfg) (copied : Bool) :
    opOf ⟨svc, .message bufPtr, actions⟩ t ≠ .load tbl copied := by
  intro hop
  cases bufPtr with
  | none => cases hop
  | some msg =>
    simp only [opOf] at hop
    split at hop
    · split_ifs at hop
    · simp only [cmdOp, jamOp, signOp] at hop
      split_ifs at hop
      split at hop <;> cases hop
    · cases hop
    · cases hop

theorem exec_load {s s' : State cfg} {l : Label cfg} {fuel : ℕ}
    (h : exec fuel s (l.services, l.input) = some (l, s')) {t : TblIndex cfg}
    {tbl : DwellTableLoad cfg} {copied : Bool} (hop : opOf l t = .load tbl copied) :
    ∃ calls, l.input = .manage t calls ∧ Updates calls tbl copied := by
  obtain ⟨svc, input, actions⟩ := l
  cases input with
  | manage u calls =>
    simp only [exec, Option.map_eq_some_iff, Prod.mk.injEq, Label.mk.injEq, true_and] at h
    obtain ⟨m, hm, rfl, rfl⟩ := h
    rcases manageLoop_cases hm with ⟨ha, -⟩ | ⟨tbl', copied', ha, hu, -, -⟩
    · simp only [opOf, ha, installOp] at hop
      cases hop
    · simp only [opOf, ha, installOp] at hop
      split_ifs at hop with hut
      cases hop
      exact ⟨calls, by rw [hut], hu⟩
  | message bufPtr => exact absurd hop (message_no_load svc bufPtr actions t tbl copied)

theorem opOf_jam {l : Label cfg} {t : TblIndex cfg} {e : ℕ} {new : DwellControlEntry}
    {load : TableLoadEntry cfg} {granted : Bool} (hop : opOf l t = .jam e new load granted) :
    ∃ msg, l.input = .message (some msg) ∧ msg.fcnCode = jamDwellCC ∧
      jamWrite l.services msg.jam = some (new, load) := by
  obtain ⟨svc, input, actions⟩ := l
  simp only [opOf] at hop
  split at hop
  · simp only [installOp] at hop
    split at hop
    · split_ifs at hop
    · cases hop
  · cases hop
  next msg =>
    split at hop
    · split_ifs at hop
    · simp only [cmdOp] at hop
      split_ifs at hop with _ _ _ _ _ h4
      · simp only [jamOp] at hop
        split_ifs at hop
        split at hop
        · cases hop
        next hj =>
          cases hop
          exact ⟨msg, rfl, h4, hj⟩
      · simp only [signOp] at hop
        split_ifs at hop
    · cases hop
    · cases hop

/-- All that an operation can do to the control structure of a stream. -/
theorem streamStep_control {svc : Services cfg} {t : TblIndex cfg} {x y : Stream cfg}
    {acts : List (Action cfg)} {op : StreamOp cfg} (h : StreamStep svc t x acts y op) :
    y.control = x.control ∨
    (∃ granted, op = .start granted ∧ y.control = switchControl dwellEnabled 1 x.control) ∨
    (∃ granted, op = .stop granted ∧ y.control = switchControl dwellDisabled 0 x.control) ∨
    (∃ e new load, op = .jam e new load true ∧
      y.control = updateDwellControlInfo (written x.control e new)) ∨
    (∃ e new load, op = .jam e new load false ∧ y.control = written x.control e new) ∨
    (∃ signature, y.control = { x.control with signature := signature }) ∨
    (∃ tbl, op = .load tbl true ∧ y.control = adopt svc.toResolver tbl x.control) ∨
    ∃ fuel p, op = .pass ∧ dwellTable svc fuel t (.start x.control x.pkt) = some p ∧
      y.control = p.control := by
  cases op with
  | idle => exact Or.inl (congrArg Stream.control h.1)
  | start granted => exact Or.inr (Or.inl ⟨granted, rfl, congrArg Stream.control h.1⟩)
  | stop granted => exact Or.inr (Or.inr (Or.inl ⟨granted, rfl, congrArg Stream.control h.1⟩))
  | jam e new load granted =>
    obtain ⟨rfl, -⟩ := h
    cases granted with
    | true => exact Or.inr (Or.inr (Or.inr (Or.inl ⟨e, new, load, rfl, rfl⟩)))
    | false => exact Or.inr (Or.inr (Or.inr (Or.inr (Or.inl ⟨e, new, load, rfl, rfl⟩))))
  | sign signature granted =>
    obtain ⟨rfl, -⟩ := h
    exact Or.inr (Or.inr (Or.inr (Or.inr (Or.inr (Or.inl
      ⟨x.control.signature.copyTerminated signature, rfl⟩)))))
  | load tbl copied =>
    obtain ⟨rfl, -⟩ := h
    cases copied with
    | true =>
      exact Or.inr (Or.inr (Or.inr (Or.inr (Or.inr (Or.inr (Or.inl ⟨tbl, rfl, rfl⟩))))))
    | false => exact Or.inl rfl
  | pass =>
    obtain ⟨fuel, p, hp, rfl, -⟩ := h
    exact Or.inr (Or.inr (Or.inr (Or.inr (Or.inr (Or.inr (Or.inr ⟨fuel, p, rfl, hp, rfl⟩))))))

/-! ## Invariants of streams over runs -/

/-- One step of the application, as a stream lives it. -/
structure StreamMove (l : Label cfg) (t : TblIndex cfg) (x y : Stream cfg) : Prop where
  step : StreamStep l.services t x (actionsOf t l.actions) y (opOf l t)
  sound : OpSound l.services t (opOf l t)

theorem anyStep_move {s s' : State cfg} {l : Label cfg} (h : AnyStep s l s') (t : TblIndex cfg) :
    StreamMove l t (stream s t) (stream s' t) := by
  obtain ⟨fuel, he⟩ := h
  exact ⟨exec_stream he t, opOf_sound l t⟩

theorem step_move {s s' : State cfg} {l : Label cfg} (h : Step s l s') (t : TblIndex cfg) :
    StreamMove l t (stream s t) (stream s' t) := anyStep_move h.any t

theorem StreamMove.control_cases {l : Label cfg} {t : TblIndex cfg} {x y : Stream cfg}
    (m : StreamMove l t x y) :
    y.control = x.control ∨
    (∃ granted, opOf l t = .start granted ∧
      y.control = switchControl dwellEnabled 1 x.control) ∨
    (∃ granted, opOf l t = .stop granted ∧
      y.control = switchControl dwellDisabled 0 x.control) ∨
    (∃ e new load, opOf l t = .jam e new load true ∧
      y.control = updateDwellControlInfo (written x.control e new)) ∨
    (∃ e new load, opOf l t = .jam e new load false ∧ y.control = written x.control e new) ∨
    (∃ signature, y.control = { x.control with signature := signature }) ∨
    (∃ tbl, opOf l t = .load tbl true ∧
      y.control = adopt l.services.toResolver tbl x.control) ∨
    ∃ fuel p, opOf l t = .pass ∧
      dwellTable l.services fuel t (.start x.control x.pkt) = some p ∧ y.control = p.control :=
  streamStep_control m.step

/-- Only a pass has actions. -/
theorem StreamMove.pass_of_action {l : Label cfg} {t : TblIndex cfg} {x y : Stream cfg}
    (m : StreamMove l t x y) {a : Action cfg} (ha : a ∈ actionsOf t l.actions) :
    ∃ fuel p, dwellTable l.services fuel t (.start x.control x.pkt) = some p ∧ a ∈ p.actions := by
  have hs := m.step
  cases hop : opOf l t with
  | pass =>
    rw [hop] at hs
    obtain ⟨fuel, p, hp, -, hacts⟩ := hs
    exact ⟨fuel, p, hp, hacts ▸ ha⟩
  | load tbl copied =>
    rw [hop] at hs
    rw [hs.2.1] at ha
    cases ha
  | _ =>
    rw [hop] at hs
    rw [hs.2] at ha
    cases ha

/-- A condition on all streams of a state. -/
def AllStreams (J : Stream cfg → Prop) (s : State cfg) : Prop := ∀ t, J (stream s t)

/-- A condition on what a step is about to do to each stream. -/
def EachStream (P : Label cfg → TblIndex cfg → Stream cfg → Prop) (s : State cfg)
    (l : Label cfg) : Prop := ∀ t, P l t (stream s t)

instance (P : Label cfg → TblIndex cfg → Stream cfg → Prop) [∀ l t x, Decidable (P l t x)]
    (s : State cfg) (l : Label cfg) : Decidable (EachStream P s l) :=
  inferInstanceAs (Decidable (∀ t, P l t (stream s t)))

/-- Table Services hands over only tables that MD_TableValidationFunc accepted. -/
def LoadAccepted (r : Resolver) (l : Label cfg) (t : TblIndex cfg) (_ : Stream cfg) : Prop :=
  match opOf l t with
  | .load tbl _ => Accepted r tbl
  | _ => True

instance (r : Resolver) (l : Label cfg) (t : TblIndex cfg) (x : Stream cfg) :
    Decidable (LoadAccepted r l t x) := by
  unfold LoadAccepted
  induction opOf l t using StreamOp.byAnswer <;> infer_instance

section Rules

variable {A P : Label cfg → TblIndex cfg → Stream cfg → Prop} {I J Q : Stream cfg → Prop}
  {s s' : State cfg} {tr : List (State cfg × Label cfg)}

theorem run_streams (keep : ∀ l t x y, P l t x → J x → StreamMove l t x y → J y)
    (run : Run AnyStep s tr s') (hs : AllStreams J s) (hp : EveryStep (EachStream P) tr) :
    EveryState (AllStreams J) tr s' :=
  run.everyState (fun _ l _ hp hj st t => keep l t _ _ (hp t) (hj t) (anyStep_move st t)) hs hp

/-- The exact rule for streams, in runs all of whose steps meet the assumption `A`. -/
theorem run_streams_exact (keepJ : ∀ l t x y, A l t x → J x → StreamMove l t x y → J y)
    (keep : ∀ l t x y, A l t x → P l t x → J x → I x → StreamMove l t x y → I y)
    (good : ∀ x, I x → Q x)
    (back : ∀ l t x y, A l t x → J x → Q x → StreamMove l t x y → Q y → P l t x)
    (run : Run AnyStep s tr s') (ha : EveryStep (EachStream A) tr) (js : AllStreams J s)
    (hs : AllStreams I s) : EveryState (AllStreams Q) tr s' ↔ EveryStep (EachStream P) tr := by
  refine (run.restrict ha).exact (J := AllStreams J) (I := AllStreams I) ?_ ?_ ?_ ?_ js hs
  · intro s l s' hj st t
    exact keepJ l t _ _ (st.1 t) (hj t) (anyStep_move st.2 t)
  · intro s l s' hp hj hi st t
    exact keep l t _ _ (st.1 t) (hp t) (hj t) (hi t) (anyStep_move st.2 t)
  · exact fun s hi t => good _ (hi t)
  · intro s l s' hj hq st hq' t
    exact back l t _ _ (st.1 t) (hj t) (hq t) (anyStep_move st.2 t) (hq' t)

end Rules

end DwellStreams
