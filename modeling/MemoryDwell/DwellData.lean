import MemoryDwell.CharField
import Mathlib.Algebra.GroupWithZero.Nat
import Mathlib.Data.Fintype.Basic
import Mathlib.Logic.Function.Basic

/-! # Data of the Memory Dwell application

Records follow the C structures field by field. Registers that wrap are naturals with
the wrap written where it happens; the lengths and delays of the entries are `UInt16`.
An entry array is a function of the index, of which the first `dwellTableSize` cells
exist in the C array. Table Services' active buffers are part of the state, everything
else outside the application answers through `Services`. -/
namespace DwellData

/-- The platform configuration, with the limits that md_verify.h enforces. Sizes of
cFE headers and the width of `cpuaddr` come with the platform. -/
structure Config where
  numDwellTables : ℕ
  dwellTableSize : ℕ
  signatureFieldLength : ℕ
  maxPathLen : ℕ
  addrWidth : ℕ
  cmdHeaderSize : ℕ
  tlmHeaderSize : ℕ
  jamDwellCmdSize : ℕ
  tables_pos : 1 ≤ numDwellTables
  tables_le : numDwellTables ≤ 16
  size_pos : 1 ≤ dwellTableSize
  size_le : dwellTableSize ≤ 65535
  signature_aligned : signatureFieldLength % 4 = 0
  signature_min : 4 ≤ signatureFieldLength
  path_pos : 1 ≤ maxPathLen

abbrev TblIndex (cfg : Config) := Fin cfg.numDwellTables

instance (cfg : Config) : NeZero cfg.numDwellTables := ⟨Nat.one_le_iff_ne_zero.mp cfg.tables_pos⟩

/-- `CFE_Status_t`. The codes the source names stand by name, all others by their
severity and value; negative results of `snprintf` travel in the same variable. -/
inductive CFEStatus where
  | success
  | tblInfoUpdated
  | tblInfoRecoveredTbl
  | tblInfoUpdatePending
  | tblInfoValidationPending
  | tblErrInvalidSize
  | info (value : ℕ)
  | error (value : ℤ)
  deriving DecidableEq, Repr

/-- `(Status & CFE_SEVERITY_BITMASK) == CFE_SEVERITY_ERROR`. -/
def CFEStatus.isError : CFEStatus → Bool
  | .tblErrInvalidSize | .error _ => true
  | _ => false

/-- `MD_Dwell_States`. -/
def dwellDisabled : ℕ := 0
def dwellEnabled : ℕ := 1

/-! Return codes of table validation (md_app.h) and of a dwell (md_dwell_pkt.h). -/

def tblEnaFlagError : CFEStatus := .error 0xc0000001
def resolveError : CFEStatus := .error 0xc0000003
def invalidAddrError : CFEStatus := .error 0xc0000004
def invalidLenError : CFEStatus := .error 0xc0000005
def notAlignedError : CFEStatus := .error 0xc0000006
def sigLenTblError : CFEStatus := .error 0xc0000007
def oneByteMemAddrReadErr : CFEStatus := .error (-1)
def twoByteMemAddrReadErr : CFEStatus := .error (-2)
def fourByteMemAddrReadErr : CFEStatus := .error (-3)
def invalidDwellAddrLen : CFEStatus := .error (-4)

variable (cfg : Config)

structure SymAddr where
  offset : ℕ
  symName : CharField cfg.maxPathLen

/-- One entry of a loadable table; length zero marks the null entry. -/
structure TableLoadEntry where
  length : UInt16
  delay : UInt16
  dwellAddress : SymAddr cfg

structure DwellTableLoad where
  enabled : ℕ
  signature : CharField cfg.signatureFieldLength
  entry : ℕ → TableLoadEntry cfg

structure DwellControlEntry where
  length : UInt16
  delay : UInt16
  resolvedAddress : ℕ
  deriving DecidableEq, Repr

structure DwellPacketControl where
  enabled : ℕ
  addrCount : ℕ
  rate : ℕ
  countdown : ℕ
  pktOffset : ℕ
  currentEntry : ℕ
  dataSize : ℕ
  entry : ℕ → DwellControlEntry
  signature : CharField cfg.signatureFieldLength

/-- A dwell packet; `size` is the length in its header, of `data` the first
`4 * dwellTableSize` bytes exist. -/
structure DwellPkt where
  size : ℕ
  tableId : ℕ
  addrCount : ℕ
  byteCount : ℕ
  rate : ℕ
  signature : CharField cfg.signatureFieldLength
  data : ℕ → UInt8

structure HkTlmPayload where
  invalidCmdCntr : ℕ
  validCmdCntr : ℕ
  dwellEnabledMask : ℕ
  dwellTblAddrCount : TblIndex cfg → ℕ
  numWaitsPerPkt : TblIndex cfg → ℕ
  byteCount : TblIndex cfg → ℕ
  dwellPktOffset : TblIndex cfg → ℕ
  dwellTblEntry : TblIndex cfg → ℕ
  countdown : TblIndex cfg → ℕ

def dataBytes : ℕ := 4 * cfg.dwellTableSize

/-- `sizeof(MD_DwellPkt_t)`: the fixed fields take eight bytes, the signature is a
multiple of four, so no padding occurs. -/
def dwellPktSizeof : ℕ := cfg.tlmHeaderSize + 8 + cfg.signatureFieldLength + dataBytes cfg

/-! Messages. The three payloads are the message buffer seen through the casts of the
command handlers; a handler reads its own one. -/

inductive MsgId where
  | wakeup
  | cmd
  | sendHk
  | other (value : ℕ)
  deriving DecidableEq, Repr

structure CmdStartStopPayload where
  tableMask : UInt16
  deriving DecidableEq, Repr

structure CmdJamPayload where
  tableId : UInt16
  entryId : UInt16
  fieldLength : UInt16
  dwellDelay : UInt16
  dwellAddress : SymAddr cfg

structure CmdSetSignaturePayload where
  tableId : UInt16
  signature : CharField cfg.signatureFieldLength

structure Message where
  msgId : MsgId
  fcnCode : ℕ
  size : ℕ
  startStop : CmdStartStopPayload
  jam : CmdJamPayload cfg
  setSignature : CmdSetSignaturePayload cfg

/-- Event messages, by their event id, with the values they print. -/
inductive EventMsg where
  | initInf
  | crPipeErr (status : CFEStatus)
  | subHkErr (status : CFEStatus)
  | subCmdErr (status : CFEStatus)
  | subWakeupErr (status : CFEStatus)
  | recoveredTblValidInf (tbl : ℕ)
  | recoveredTblNotValidErr (tbl : ℕ)
  | dwellTblTooLargeCrit
  | tblRegisterCrit (status : CFEStatus) (tbl : ℕ)
  | tblInitInf (recovered initialized : ℕ)
  | initTblNameErr (status : CFEStatus) (index : ℕ)
  | initTblFilenameErr (status : CFEStatus) (index : ℕ)
  | noTblCopyErr (tbl : ℕ) (result : CFEStatus)
  | tblStatusErr (status : CFEStatus) (tbl : ℕ)
  | noopInf
  | resetInf
  | startDwellInf (mask : UInt16)
  | startDwellErr (mask : UInt16) (errors tables : ℕ)
  | stopDwellInf (mask : UInt16)
  | stopDwellErr (mask : UInt16) (errors tables : ℕ)
  | emptyTblmaskErr (command : String) (mask : UInt16)
  | zeroRateCmdInf (tableId : ℕ)
  | invalidJamTableErr (tableId : UInt16)
  | invalidEntryArgErr (entryId : UInt16)
  | jamNullDwellInf (tableId entryId : UInt16)
  | jamNullDwellErr (tableId entryId : UInt16)
  | cantResolveJamAddrErr (symName : List UInt8)
  | invalidLenArgErr (fieldLength : UInt16)
  | invalidJamAddrErr (addr : ℕ)
  | jamAddrNot32BitErr (addr : ℕ)
  | jamAddrNot16BitErr (addr : ℕ)
  | jamDwellInf (tableId entryId : UInt16)
  | jamDwellErr (tableId entryId : UInt16)
  | invalidSignatureLengthErr
  | invalidSignatureTableErr (tableId : UInt16)
  | setSignatureInf (tableId : UInt16) (signature : List UInt8)
  | setSignatureErr (tableId : UInt16) (status : CFEStatus)
  | ccNotInTblErr (code : ℕ)
  | cmdLenErr (id : MsgId) (code expected actual : ℕ)
  | edsCmdLenErr (id : MsgId) (code actual : ℕ)
  | msgLenErr (id : MsgId) (expected actual : ℕ)
  | midErr (id : MsgId)
  | dwellLoopGetDwellDataErr (entry table : ℕ)
  | tblValNullPtrErr
  | tblEnaFlag (enabled : ℕ)
  | tblSigLenErr
  | zeroRateTblInf
  | resolveErr (symName : List UInt8) (offset entry : ℕ)
  | rangeErr (symName : List UInt8) (offset entry : ℕ)
  | tblHasLenErr (length : UInt16) (entry : ℕ)
  | tblAlignErr (symName : List UInt8) (offset entry : ℕ) (length : UInt16)
  | tblEntryErr (entry : ℕ) (status : CFEStatus)
  | dwellTblInf (good bad unused : ℕ)
  | updateTblEnErr (index : ℕ) (status : CFEStatus)
  | updateTblDwellErr (index : ℕ) (status : CFEStatus)
  | updateTblSigErr (index : ℕ) (status : CFEStatus)
  deriving DecidableEq, Repr

/-- `MD_AppData`, the active buffers of Table Services and the events issued so far. -/
structure State where
  cmdCounter : ℕ
  errCounter : ℕ
  hkPkt : HkTlmPayload cfg
  dwellTables : TblIndex cfg → DwellPacketControl cfg
  dwellPkt : TblIndex cfg → DwellPkt cfg
  tblBuffer : TblIndex cfg → DwellTableLoad cfg
  events : List EventMsg

/-- What an execution does to memory, the bus and Table Services: the reads for dwell
packets with the write position and the bytes read, the control entry consulted when a
packet was already full, the packets sent, and the tables an update installs, with
whether the application copied them. -/
inductive Action where
  | sample (t : TblIndex cfg) (entry offset numBytes : ℕ) (data : Option (ℕ → UInt8))
  | restart (t : TblIndex cfg) (entry : ℤ)
  | sendDwell (t : TblIndex cfg) (pkt : DwellPkt cfg)
  | sendHk (payload : HkTlmPayload cfg)
  | install (t : TblIndex cfg) (tbl : DwellTableLoad cfg) (copied : Bool)

/-- Symbol lookup and address checks. The first argument is the place of the call: the
index of the entry in a table, zero in a command. A lookup gets the output variable's
old value and answers with success and its new value. -/
structure Resolver where
  symbolLookup : ℕ → List UInt8 → ℕ → Bool × ℕ
  memValidateRange : ℕ → ℕ → ℕ → Bool

/-- The answers of the outside to the calls of one step, one for each place of a call.
A memory read is told how many reads of that table came before it in the same step, and
a value that was read is given by its bytes in memory order. -/
structure Services (cfg : Config) extends Resolver where
  getAddress : TblIndex cfg → CFEStatus
  memRead : TblIndex cfg → ℕ → ℕ → ℕ → Option (ℕ → UInt8)
  messageStringGet : CharField cfg.maxPathLen → CharField cfg.maxPathLen

/-- A symbol table and a memory map that do not change. -/
structure MemoryMap where
  symbols : List UInt8 → Option ℕ
  validRange : ℕ → ℕ → Bool

/-- Every call gets the answer of the one map, and a failed lookup leaves its output. Names
are taken as they stand in their fields; `MemoryMap.reader` has those that go on behind. -/
def MemoryMap.resolver (m : MemoryMap) : Resolver where
  symbolLookup _ name old :=
    match m.symbols name with
    | some a => (true, a)
    | none => (false, old)
  memValidateRange _ addr size := m.validRange addr size

/-- The string that a lookup finds in memory: a name that fills its field brings no NUL, and
goes on with the bytes behind the field. -/
def readOn (pathLen : ℕ) (name behind : List UInt8) : List UInt8 :=
  if name.length < pathLen then name else name ++ behind.takeWhile (· != 0)

/-- The answers of the map to names in memory, with what stands behind the field at each
place of a call: the next entry of a table, or the rest of a message. -/
def MemoryMap.reader (m : MemoryMap) (pathLen : ℕ) (behind : ℕ → List UInt8) : Resolver where
  symbolLookup site name old := m.resolver.symbolLookup site (readOn pathLen name (behind site)) old
  memValidateRange := m.resolver.memValidateRange

/-- The map answers the calls of a step, whatever stands behind the names. -/
def MemoryMap.Answers (m : MemoryMap) (cfg : Config) (r : Resolver) : Prop :=
  ∃ behind, r = m.reader cfg.maxPathLen behind

/-- The symbols whose names end inside a field. -/
def MemoryMap.within (m : MemoryMap) (pathLen : ℕ) : MemoryMap :=
  { m with symbols := fun name => if name.length < pathLen then m.symbols name else none }

/-- The answers of the map to the names that end in their fields, no other being known. -/
def MemoryMap.inField (m : MemoryMap) (cfg : Config) : Resolver :=
  (m.within cfg.maxPathLen).resolver

/-- A memory map, and how a table lies in memory: the bytes behind the name of each entry,
those of the next entries or of what follows the table. -/
structure TableMemory (cfg : Config) extends MemoryMap where
  behind : (ℕ → TableLoadEntry cfg) → ℕ → List UInt8
  behind_congr : ∀ entry entry' i, (∀ j, i < j → entry j = entry' j) →
    behind entry i = behind entry' i

variable {cfg}

/-- The answers to the names of a table that are read where they stand. -/
def TableMemory.resolverOf (M : TableMemory cfg) (tbl : DwellTableLoad cfg) : Resolver :=
  M.toMemoryMap.reader cfg.maxPathLen (M.behind tbl.entry)

/-- What the fixed symbol table makes of a symbolic address. -/
def MemoryMap.resolve (m : MemoryMap) (symAddr : SymAddr cfg) : Option ℕ :=
  if symAddr.symName.cstr.length = 0 then some symAddr.offset
  else (m.symbols symAddr.symName.cstr).map fun a => (a + symAddr.offset) % 2 ^ cfg.addrWidth

def MemoryMap.resolveAt (m : MemoryMap) (behind : List UInt8) (symAddr : SymAddr cfg) : Option ℕ :=
  if symAddr.symName.cstr.length = 0 then some symAddr.offset
  else (m.symbols (readOn cfg.maxPathLen symAddr.symName.cstr behind)).map
    fun a => (a + symAddr.offset) % 2 ^ cfg.addrWidth

/-- The names of all non-null entries end in their fields. -/
def NamesEnd (tbl : DwellTableLoad cfg) : Prop :=
  ∀ i < cfg.dwellTableSize, (tbl.entry i).length ≠ 0 →
    (tbl.entry i).dwellAddress.symName.Terminated

instance (tbl : DwellTableLoad cfg) : Decidable (NamesEnd tbl) :=
  inferInstanceAs (Decidable (∀ i < cfg.dwellTableSize, _))

namespace State

def sendEvent (s : State cfg) (e : EventMsg) : State cfg := { s with events := s.events ++ [e] }

def setTable (s : State cfg) (t : TblIndex cfg) (c : DwellPacketControl cfg) : State cfg :=
  { s with dwellTables := Function.update s.dwellTables t c }

def setBuffer (s : State cfg) (t : TblIndex cfg) (b : DwellTableLoad cfg) : State cfg :=
  { s with tblBuffer := Function.update s.tblBuffer t b }

/-- The counters are `uint8`. -/
def countCmd (s : State cfg) : State cfg := { s with cmdCounter := (s.cmdCounter + 1) % 256 }
def countErr (s : State cfg) : State cfg := { s with errCounter := (s.errCounter + 1) % 256 }

section Fields

variable (s : State cfg) (e : EventMsg) (t u : TblIndex cfg) (c : DwellPacketControl cfg)
  (b : DwellTableLoad cfg)

@[simp] theorem sendEvent_dwellTables : (s.sendEvent e).dwellTables = s.dwellTables := rfl
@[simp] theorem sendEvent_dwellPkt : (s.sendEvent e).dwellPkt = s.dwellPkt := rfl
@[simp] theorem sendEvent_tblBuffer : (s.sendEvent e).tblBuffer = s.tblBuffer := rfl
@[simp] theorem sendEvent_cmdCounter : (s.sendEvent e).cmdCounter = s.cmdCounter := rfl
@[simp] theorem sendEvent_errCounter : (s.sendEvent e).errCounter = s.errCounter := rfl

@[simp] theorem setTable_self : (s.setTable t c).dwellTables t = c := by simp [setTable]
theorem setTable_ne (h : u ≠ t) : (s.setTable t c).dwellTables u = s.dwellTables u := by
  simp [setTable, h]
@[simp] theorem setTable_dwellPkt : (s.setTable t c).dwellPkt = s.dwellPkt := rfl
@[simp] theorem setTable_tblBuffer : (s.setTable t c).tblBuffer = s.tblBuffer := rfl
@[simp] theorem setTable_cmdCounter : (s.setTable t c).cmdCounter = s.cmdCounter := rfl
@[simp] theorem setTable_errCounter : (s.setTable t c).errCounter = s.errCounter := rfl

@[simp] theorem setBuffer_self : (s.setBuffer t b).tblBuffer t = b := by simp [setBuffer]
theorem setBuffer_ne (h : u ≠ t) : (s.setBuffer t b).tblBuffer u = s.tblBuffer u := by
  simp [setBuffer, h]
@[simp] theorem setBuffer_dwellTables : (s.setBuffer t b).dwellTables = s.dwellTables := rfl
@[simp] theorem setBuffer_dwellPkt : (s.setBuffer t b).dwellPkt = s.dwellPkt := rfl
@[simp] theorem setBuffer_cmdCounter : (s.setBuffer t b).cmdCounter = s.cmdCounter := rfl
@[simp] theorem setBuffer_errCounter : (s.setBuffer t b).errCounter = s.errCounter := rfl

@[simp] theorem countCmd_dwellTables : s.countCmd.dwellTables = s.dwellTables := rfl
@[simp] theorem countCmd_dwellPkt : s.countCmd.dwellPkt = s.dwellPkt := rfl
@[simp] theorem countCmd_tblBuffer : s.countCmd.tblBuffer = s.tblBuffer := rfl
@[simp] theorem countCmd_cmdCounter : s.countCmd.cmdCounter = (s.cmdCounter + 1) % 256 := rfl
@[simp] theorem countCmd_errCounter : s.countCmd.errCounter = s.errCounter := rfl
@[simp] theorem countErr_dwellTables : s.countErr.dwellTables = s.dwellTables := rfl
@[simp] theorem countErr_dwellPkt : s.countErr.dwellPkt = s.dwellPkt := rfl
@[simp] theorem countErr_tblBuffer : s.countErr.tblBuffer = s.tblBuffer := rfl
@[simp] theorem countErr_cmdCounter : s.countErr.cmdCounter = s.cmdCounter := rfl
@[simp] theorem countErr_errCounter : s.countErr.errCounter = (s.errCounter + 1) % 256 := rfl

end Fields

end State

end DwellData
