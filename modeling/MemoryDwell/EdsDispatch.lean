import MemoryDwell.DwellDispatch

/-! # Command dispatch of the EDS build (md_eds_dispatch.c)

The routing is generated code outside the application. It is a parameter here, with what
the application relies on. -/
namespace EdsDispatch

open DwellData DwellCmds DwellPkts DwellApp DwellDispatch

variable {cfg : Config}

/-- A handler: its status, the next state and what it did. Of all handlers only
MD_DwellLoop may fail to return. -/
abbrev Indication (cfg : Config) :=
  Message cfg → State cfg → Option (CFEStatus × State cfg × List (Action cfg))

structure CmdIndications (cfg : Config) where
  noopCmd : Indication cfg
  resetCountersCmd : Indication cfg
  startDwellCmd : Indication cfg
  stopDwellCmd : Indication cfg
  jamDwellCmd : Indication cfg
  setSignatureCmd : Indication cfg

/-- `EdsDispatchTable_EdsComponent_MD_Application_CFE_SB_Telecommand_t`. -/
structure DispatchTable (cfg : Config) where
  cmd : CmdIndications cfg
  sendHk : Indication cfg
  wakeup : Indication cfg

def groundCmd (handler : Message cfg → State cfg → CFEStatus × State cfg) : Indication cfg :=
  fun msg s => some ((handler msg s).1, (handler msg s).2, [])

/-- `MD_TC_DISPATCH_TABLE`. -/
def tcDispatchTable (svc : Services cfg) (fuel : ℕ) : DispatchTable cfg where
  cmd := {
    noopCmd := groundCmd fun _ => noopCmd
    resetCountersCmd := groundCmd fun _ => resetCountersCmd
    startDwellCmd := groundCmd fun msg => startDwellCmd svc msg.startStop
    stopDwellCmd := groundCmd fun msg => stopDwellCmd svc msg.startStop
    jamDwellCmd := groundCmd fun msg => jamDwellCmd svc msg.jam
    setSignatureCmd := groundCmd fun msg => setSignatureCmd svc msg.setSignature }
  sendHk := fun _ s => some (.success, hkStatus s)
  wakeup := fun _ s => (dwellLoop svc fuel s).map fun w => (w.status, w.state, w.actions)

/-- The handler of a function code (MD.xml), with the size of its message. -/
def CmdIndications.find (i : CmdIndications cfg) (fcnCode : ℕ) : Option (ℕ × Indication cfg) :=
  if fcnCode = noopCC then some (cfg.cmdHeaderSize, i.noopCmd)
  else if fcnCode = resetCntrsCC then some (cfg.cmdHeaderSize, i.resetCountersCmd)
  else if fcnCode = startDwellCC then some (cfg.cmdHeaderSize + 4, i.startDwellCmd)
  else if fcnCode = stopDwellCC then some (cfg.cmdHeaderSize + 4, i.stopDwellCmd)
  else if fcnCode = jamDwellCC then some (cfg.jamDwellCmdSize, i.jamDwellCmd)
  else if fcnCode = setSignatureCC then
    some (cfg.cmdHeaderSize + 4 + cfg.signatureFieldLength, i.setSignatureCmd)
  else none

/-- `EdsDispatch_EdsComponent_MD_Application_Telecommand` and the codes of its failures. -/
structure EdsLibrary (cfg : Config) where
  unknownMsgId : CFEStatus
  wrongMsgLength : CFEStatus
  telecommand : DispatchTable cfg → Indication cfg

/-- What is promised of the generated function: a message goes to its handler, whose
status is handed on, or is refused with an error and no effect. -/
structure EdsLibrary.Documented (lib : EdsLibrary cfg) : Prop where
  unknownMsgId_ne : lib.unknownMsgId ≠ .success
  wrongMsgLength_ne : lib.wrongMsgLength ≠ .success
  unknownId : ∀ T msg s v, msg.msgId = .other v →
    lib.telecommand T msg s = some (lib.unknownMsgId, s, [])
  bareLength : ∀ T msg s, msg.msgId = .wakeup ∨ msg.msgId = .sendHk →
    msg.size ≠ bareMsgLength cfg → lib.telecommand T msg s = some (lib.wrongMsgLength, s, [])
  wakeup : ∀ T msg s, msg.msgId = .wakeup → msg.size = bareMsgLength cfg →
    lib.telecommand T msg s = T.wakeup msg s
  sendHk : ∀ T msg s, msg.msgId = .sendHk → msg.size = bareMsgLength cfg →
    lib.telecommand T msg s = T.sendHk msg s
  unknownCode : ∀ T msg s, msg.msgId = .cmd → T.cmd.find msg.fcnCode = none →
    ∃ status ≠ CFEStatus.success, lib.telecommand T msg s = some (status, s, [])
  cmdLength : ∀ T msg s r, msg.msgId = .cmd → T.cmd.find msg.fcnCode = some r →
    msg.size ≠ r.1 → lib.telecommand T msg s = some (lib.wrongMsgLength, s, [])
  cmd : ∀ T msg s r, msg.msgId = .cmd → T.cmd.find msg.fcnCode = some r →
    msg.size = r.1 → lib.telecommand T msg s = r.2 msg s

def reportStatus (lib : EdsLibrary cfg) (msg : Message cfg) (status : CFEStatus)
    (s : State cfg) : State cfg :=
  if status ≠ .success then
    s.countErr.sendEvent <|
      if status = lib.unknownMsgId then .midErr msg.msgId
      else if status = lib.wrongMsgLength then .edsCmdLenErr msg.msgId msg.fcnCode msg.size
      else .ccNotInTblErr msg.fcnCode
  else s

def processCommandPacket (lib : EdsLibrary cfg) (svc : Services cfg) (fuel : ℕ)
    (msg : Message cfg) (s : State cfg) : Option (State cfg × List (Action cfg)) :=
  (lib.telecommand (tcDispatchTable svc fuel) msg s).map fun (status, s, actions) =>
    (reportStatus lib msg status s, actions)

@[simp] theorem reportStatus_success (lib : EdsLibrary cfg) (msg : Message cfg) (s : State cfg) :
    reportStatus lib msg .success s = s := rfl

theorem reportStatus_error {status : CFEStatus} (h : status ≠ .success) (lib : EdsLibrary cfg)
    (msg : Message cfg) (s : State cfg) :
    ∃ e, reportStatus lib msg status s = s.countErr.sendEvent e := ⟨_, if_pos h⟩

theorem find_none {fcnCode : ℕ} (h : searchCmdHndlrTbl cfg fcnCode = none)
    (i : CmdIndications cfg) : i.find fcnCode = none := by
  simp only [searchCmdHndlrTbl, cmdHandlerTbl, List.find?_eq_none, List.forall_mem_cons,
    beq_iff_eq] at h
  obtain ⟨h0, h1, h2, h3, h4, h5, -⟩ := h
  simp [CmdIndications.find, Ne.symm h0, Ne.symm h1, Ne.symm h2, Ne.symm h3, Ne.symm h4,
    Ne.symm h5]

theorem find_some (svc : Services cfg) (fuel : ℕ) {msg : Message cfg} {r : CmdHandlerTblRec}
    (h : searchCmdHndlrTbl cfg msg.fcnCode = some r) :
    ∃ handler, (tcDispatchTable svc fuel).cmd.find msg.fcnCode = some (r.expectedLength, handler) ∧
      ∀ s, handler msg s =
        some ((processCommand svc msg s).1, (processCommand svc msg s).2, []) := by
  have hmem := List.mem_of_find?_eq_some h
  have hcode : r.cmdCode = msg.fcnCode := by simpa using List.find?_some h
  simp only [cmdHandlerTbl, List.mem_cons, List.not_mem_nil, or_false] at hmem
  rcases hmem with rfl | rfl | rfl | rfl | rfl | rfl <;>
    simp only at hcode <;>
    simp [CmdIndications.find, tcDispatchTable, groundCmd, processCommand, ← hcode, noopCC,
      resetCntrsCC, startDwellCC, stopDwellCC, jamDwellCC, setSignatureCC]

end EdsDispatch
