import MemoryDwell.DwellApp
import MemoryDwell.DwellCmds

/-! # Command dispatch (md_dispatch.c) -/
namespace DwellDispatch

open DwellData DwellCmds DwellPkts DwellApp

variable {cfg : Config}

def noopCC : ℕ := 0
def resetCntrsCC : ℕ := 1
def startDwellCC : ℕ := 2
def stopDwellCC : ℕ := 3
def jamDwellCC : ℕ := 4
def setSignatureCC : ℕ := 5

structure CmdHandlerTblRec where
  cmdCode : ℕ
  expectedLength : ℕ
  deriving DecidableEq, Repr

def cmdHandlerTbl (cfg : Config) : List CmdHandlerTblRec :=
  [⟨noopCC, cfg.cmdHeaderSize⟩,
    ⟨resetCntrsCC, cfg.cmdHeaderSize⟩,
    ⟨startDwellCC, cfg.cmdHeaderSize + 4⟩,
    ⟨stopDwellCC, cfg.cmdHeaderSize + 4⟩,
    ⟨jamDwellCC, cfg.jamDwellCmdSize⟩,
    ⟨setSignatureCC, cfg.cmdHeaderSize + 4 + cfg.signatureFieldLength⟩]

/-- The first record with the code; `none` is the index `MD_BAD_CMD_CODE`. -/
def searchCmdHndlrTbl (cfg : Config) (commandCode : ℕ) : Option CmdHandlerTblRec :=
  (cmdHandlerTbl cfg).find? fun r => r.cmdCode == commandCode

/-- The switch over the command code, each handler reading its own payload. -/
def processCommand (svc : Services cfg) (msg : Message cfg) (s : State cfg) :
    CFEStatus × State cfg :=
  if msg.fcnCode = resetCntrsCC then resetCountersCmd s
  else if msg.fcnCode = startDwellCC then startDwellCmd svc msg.startStop s
  else if msg.fcnCode = stopDwellCC then stopDwellCmd svc msg.startStop s
  else if msg.fcnCode = jamDwellCC then jamDwellCmd svc msg.jam s
  else if msg.fcnCode = setSignatureCC then setSignatureCmd svc msg.setSignature s
  else noopCmd s

def execRequest (svc : Services cfg) (msg : Message cfg) (s : State cfg) : State cfg :=
  match searchCmdHndlrTbl cfg msg.fcnCode with
  | none => (s.sendEvent (.ccNotInTblErr msg.fcnCode)).countErr
  | some r =>
    if msg.size ≠ r.expectedLength then
      (s.sendEvent (.cmdLenErr msg.msgId msg.fcnCode r.expectedLength msg.size)).countErr
    else (processCommand svc msg s).2

/-- `sizeof(MD_Wakeup_t)` and `sizeof(MD_SendHkCmd_t)`: a header and nothing else. -/
def bareMsgLength (cfg : Config) : ℕ := cfg.cmdHeaderSize

def processCommandPacket (svc : Services cfg) (fuel : ℕ) (bufPtr : Option (Message cfg))
    (s : State cfg) : Option (State cfg × List (Action cfg)) :=
  match bufPtr with
  | none => some (s, [])
  | some msg =>
    match msg.msgId with
    | .wakeup =>
      if msg.size ≠ bareMsgLength cfg then
        some (s.sendEvent (.msgLenErr msg.msgId (bareMsgLength cfg) msg.size), [])
      else (dwellLoop svc fuel s).map fun w => (w.state, w.actions)
    | .cmd => some (execRequest svc msg s, [])
    | .sendHk =>
      if msg.size ≠ bareMsgLength cfg then
        some (s.sendEvent (.msgLenErr msg.msgId (bareMsgLength cfg) msg.size), [])
      else some (hkStatus s)
    | .other _ => some (s.sendEvent (.midErr msg.msgId), [])

end DwellDispatch
