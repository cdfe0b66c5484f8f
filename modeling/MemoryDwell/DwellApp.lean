import MemoryDwell.DwellTbl
import MemoryDwell.DwellPkts

/-! # Initialization, table management and housekeeping (md_app.c) -/
namespace DwellApp

open DwellData DwellUtils DwellTbl DwellPkts

variable {cfg : Config}

/-- The copy of an active buffer, and the start of its stream if the table is enabled. -/
def copyAndStart (r : Resolver) (fuel : ℕ) (t : TblIndex cfg) (s : State cfg) :
    Option (State cfg) :=
  (copyUpdatedTbl r fuel (s.tblBuffer t) (s.dwellTables t)).map fun c =>
    s.setTable t (if (s.tblBuffer t).enabled = dwellEnabled then startDwellStream c else c)

def zeroControl (cfg : Config) : DwellPacketControl cfg :=
  ⟨0, 0, 0, 0, 0, 0, 0, fun _ => ⟨0, 0, 0⟩, .zeros _⟩

def initControlStructures (s : State cfg) : State cfg :=
  { s with dwellTables := fun _ => { zeroControl cfg with countdown := 1 } }

def initMsg (cfg : Config) : DwellPkt cfg :=
  ⟨dwellPktSizeof cfg, 0, 0, 0, 0, .zeros _, fun _ => 0⟩

structure SoftwareBusCalls where
  createPipe : CFEStatus
  subscribeSendHk : CFEStatus
  subscribeCmd : CFEStatus
  subscribeWakeup : CFEStatus

def initSoftwareBusServices (calls : SoftwareBusCalls) (s : State cfg) : CFEStatus × State cfg :=
  let s := { s with
    hkPkt := ⟨0, 0, 0, fun _ => 0, fun _ => 0, fun _ => 0, fun _ => 0, fun _ => 0, fun _ => 0⟩
    dwellPkt := fun _ => { initMsg cfg with signature := (initMsg cfg).signature.setNul 0 } }
  if calls.createPipe ≠ .success then
    (calls.createPipe, s.sendEvent (.crPipeErr calls.createPipe))
  else if calls.subscribeSendHk ≠ .success then
    (calls.subscribeSendHk, s.sendEvent (.subHkErr calls.subscribeSendHk))
  else if calls.subscribeCmd ≠ .success then
    (calls.subscribeCmd, s.sendEvent (.subCmdErr calls.subscribeCmd))
  else if calls.subscribeWakeup ≠ .success then
    (calls.subscribeWakeup, s.sendEvent (.subWakeupErr calls.subscribeWakeup))
  else (.success, s)

/-- The answers to the calls of MD_InitTableServices, table by table: the results of the
two `snprintf`, of Table Services, what registration recovered from the CDS and what is
in the table file. -/
structure InitCalls (cfg : Config) where
  tableName : TblIndex cfg → ℤ
  tblFileName : TblIndex cfg → ℤ
  register : TblIndex cfg → CFEStatus
  recovered : TblIndex cfg → DwellTableLoad cfg
  getAddress : TblIndex cfg → CFEStatus
  load : TblIndex cfg → CFEStatus
  file : TblIndex cfg → DwellTableLoad cfg

structure InitState (cfg : Config) where
  state : State cfg
  status : CFEStatus
  recoveredValidTable : Bool
  tableInitValidFlag : Bool
  tblRecos : ℕ
  tblInits : ℕ

def recoverTable (r : Resolver) (calls : InitCalls cfg) (fuel : ℕ) (t : TblIndex cfg)
    (x : InitState cfg) : Option (InitState cfg) :=
  let s := x.state.setBuffer t (calls.recovered t)
  if calls.getAddress t ≠ .tblInfoUpdated then
    some { x with state := s.sendEvent (.noTblCopyErr (t + 1) (calls.getAddress t)) }
  else
    let (result, events) := tableValidationFunc r (some (s.tblBuffer t))
    let s := { s with events := s.events ++ events }
    if result = .success then
      (copyAndStart r fuel t s).map fun s =>
        { x with
          state := s.sendEvent (.recoveredTblValidInf (t + 1))
          recoveredValidTable := true
          tblRecos := x.tblRecos + 1 }
    else some { x with state := s.sendEvent (.recoveredTblNotValidErr (t + 1)) }

def registerTable (r : Resolver) (calls : InitCalls cfg) (fuel : ℕ) (t : TblIndex cfg)
    (x : InitState cfg) : Option (InitState cfg) :=
  let x := { x with status := calls.register t }
  match calls.register t with
  | .tblInfoRecoveredTbl => recoverTable r calls fuel t x
  | .tblErrInvalidSize =>
    some { x with state := x.state.sendEvent .dwellTblTooLargeCrit, tableInitValidFlag := false }
  | .success => some { x with tableInitValidFlag := true }
  | status =>
    some { x with
      state := x.state.sendEvent (.tblRegisterCrit status (t + 1))
      tableInitValidFlag := false }

/-- The load of the table file, which overwrites nothing of the local copy but `Enabled`. -/
def loadTable (calls : InitCalls cfg) (t : TblIndex cfg) (x : InitState cfg) : InitState cfg :=
  let s := x.state.setTable t { x.state.dwellTables t with enabled := dwellDisabled }
  if calls.load t ≠ .success then
    { x with state := s, status := calls.load t, tableInitValidFlag := false }
  else
    { x with
      state := s.setBuffer t (calls.file t)
      status := calls.load t
      tblInits := x.tblInits + 1 }

def initTable (r : Resolver) (calls : InitCalls cfg) (fuel : ℕ) (x : InitState cfg)
    (t : TblIndex cfg) : Option (InitState cfg) :=
  if x.tableInitValidFlag ≠ true then some x
  else
    let x := { x with recoveredValidTable := false }
    if calls.tableName t < 0 then
      some { x with
        state := x.state.sendEvent (.initTblNameErr (.error (calls.tableName t)) t)
        status := .error (calls.tableName t)
        tableInitValidFlag := false }
    else if calls.tblFileName t < 0 then
      some { x with
        state := x.state.sendEvent (.initTblFilenameErr (.error (calls.tblFileName t)) t)
        status := .error (calls.tblFileName t)
        tableInitValidFlag := false }
    else
      (registerTable r calls fuel t x).map fun x =>
        let x :=
          if x.recoveredValidTable = false ∧ x.tableInitValidFlag = true then loadTable calls t x
          else x
        if x.tableInitValidFlag = true then
          { x with
            state := x.state.setTable t (updateDwellControlInfo (x.state.dwellTables t)) }
        else x

def initTableServices (r : Resolver) (calls : InitCalls cfg) (fuel : ℕ) (s : State cfg) :
    Option (CFEStatus × State cfg) :=
  ((List.finRange cfg.numDwellTables).foldlM (initTable r calls fuel)
    ⟨s, .success, true, true, 0, 0⟩).map fun x =>
      (if x.tableInitValidFlag = true then .success else x.status,
        x.state.sendEvent (.tblInitInf x.tblRecos x.tblInits))

/-- The state in which MD_AppInit calls MD_InitTableServices, software bus willing. -/
def initCounters (s : State cfg) : State cfg :=
  initControlStructures { s with cmdCounter := 0, errCounter := 0 }

structure AppInitCalls (cfg : Config) extends SoftwareBusCalls, InitCalls cfg where
  evsRegister : CFEStatus
  sendInitEvent : CFEStatus

def appInit (r : Resolver) (calls : AppInitCalls cfg) (fuel : ℕ) (s : State cfg) :
    Option (CFEStatus × State cfg) :=
  let s := initCounters s
  if calls.evsRegister ≠ .success then some (calls.evsRegister, s)
  else
    let (status, s) := initSoftwareBusServices calls.toSoftwareBusCalls s
    if status ≠ .success then some (status, s)
    else
      (initTableServices r calls.toInitCalls fuel s).map fun (status, s) =>
        if status = .success then (calls.sendInitEvent, s.sendEvent .initInf) else (status, s)

/-- Table Services as one table sees it, over the states `W` of what is outside the
application: each call moves that state, and `loaded` is the active buffer of the table. -/
structure ManageCalls (cfg : Config) (W : Type) where
  getStatus : W → CFEStatus × W
  validate : W → CFEStatus × W
  update : W → CFEStatus × W
  getAddress : W → CFEStatus × W
  loaded : W → DwellTableLoad cfg

structure Managed (cfg : Config) (W : Type) where
  status : CFEStatus
  world : W
  state : State cfg
  actions : List (Action cfg)

variable {W : Type}

/-- The update branch: Table Services installs the load, then MD fetches its address. -/
def updateFromLoad (r : Resolver) (calls : ManageCalls cfg W) (fuel : ℕ) (t : TblIndex cfg) (w : W)
    (s : State cfg) : Option (Managed cfg W) :=
  let (status, w) := calls.update w
  if status = .success then
    let tbl := calls.loaded w
    let s := s.setBuffer t tbl
    let (getAddressResult, w) := calls.getAddress w
    if getAddressResult = .tblInfoUpdated then
      (copyAndStart r fuel t s).map fun s => ⟨status, w, s, [.install t tbl true]⟩
    else
      some ⟨status, w, s.sendEvent (.noTblCopyErr (t + 1) getAddressResult),
        [.install t tbl false]⟩
  else some ⟨status, w, s, []⟩

/-- `while (!FinishedManaging)`; only a successful validation leads to another turn. -/
def manageLoop (r : Resolver) (calls : ManageCalls cfg W) (copyFuel : ℕ) (t : TblIndex cfg)
    (s : State cfg) : ℕ → W → Option (Managed cfg W)
  | 0, _ => none
  | fuel + 1, w =>
    let (status, w) := calls.getStatus w
    if status = .tblInfoValidationPending then
      let (status, w) := calls.validate w
      if status ≠ .success then some ⟨status, w, s, []⟩
      else manageLoop r calls copyFuel t s fuel w
    else if status = .tblInfoUpdatePending then updateFromLoad r calls copyFuel t w s
    else if status.isError then
      some ⟨status, w, s.sendEvent (.tblStatusErr status (t + 1)), []⟩
    else some ⟨status, w, s, []⟩

def manageDwellTable (r : Resolver) (calls : ManageCalls cfg W) (fuel : ℕ) (t : TblIndex cfg)
    (w : W) (s : State cfg) : Option (Managed cfg W) :=
  manageLoop r calls fuel t s fuel w

def memDwellEnableBits (s : State cfg) : ℕ :=
  (List.finRange cfg.numDwellTables).foldl
    (fun bits t => (bits ||| (s.dwellTables t).enabled <<< t.val) % 65536) 0

/-- The packet holds `uint16` values of the `uint32` rate and countdown. -/
def hkPayload (s : State cfg) : HkTlmPayload cfg where
  validCmdCntr := s.cmdCounter
  invalidCmdCntr := s.errCounter
  dwellEnabledMask := memDwellEnableBits s
  dwellTblAddrCount t := (s.dwellTables t).addrCount
  numWaitsPerPkt t := (s.dwellTables t).rate % 65536
  dwellPktOffset t := (s.dwellTables t).pktOffset
  byteCount t := (s.dwellTables t).dataSize
  dwellTblEntry t := (s.dwellTables t).currentEntry
  countdown t := (s.dwellTables t).countdown % 65536

def hkStatus (s : State cfg) : State cfg × List (Action cfg) :=
  ({ s with hkPkt := hkPayload s }, [.sendHk (hkPayload s)])

end DwellApp
