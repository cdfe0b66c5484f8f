import MemoryDwell.DwellRuns

/-! # The main loop (MD_AppMain of md_app.c)

What the executive, Table Services and the software bus answer in one turn of the loop
is a `Round`. The loop runs over a list of rounds: it leaves the list when the executive
says so, and a list that is used up is an application that is still running. -/
namespace DwellMain

open DwellData DwellApp DwellDispatch DwellRuns

variable {cfg : Config}

/-- `CFE_ES_RunStatus`; only the first two are written by the application. -/
inductive RunStatus where
  | appRun
  | appError
  | other (value : ℕ)
  deriving DecidableEq, Repr

/-- `CFE_SB_TIME_OUT`: an error code, but the main loop takes no action on it. -/
def sbTimeOut : CFEStatus := .error 0xca000001

/-- What the main loop reports by itself: the system log entry of a failed
initialization, and MD_PIPE_ERR. -/
inductive Report where
  | initFailed (rc : CFEStatus)
  | pipeErr (status : CFEStatus)
  deriving DecidableEq, Repr

structure Round (cfg : Config) where
  runLoop : RunStatus → Bool × RunStatus
  tblServices : TblIndex cfg → Services cfg
  manage : TblIndex cfg → ManageCalls cfg ℕ
  received : CFEStatus
  bufPtr : Option (Message cfg)
  services : Services cfg

structure Main (cfg : Config) where
  state : State cfg
  runStatus : RunStatus
  reports : List Report
  actions : List (Action cfg)

/-- `for (TblIndex = 0; ...)`: the results of the calls are not looked at. -/
def manageTables (round : Round cfg) (fuel : ℕ) (m : Main cfg) : Option (Main cfg) :=
  (List.finRange cfg.numDwellTables).foldlM (fun m t =>
    (manageDwellTable (round.tblServices t).toResolver (round.manage t) fuel t 0 m.state).map
      fun managed => { m with
        state := managed.state
        actions := m.actions ++ managed.actions }) m

/-- The wait for a message. An error on the pipe ends the application at the next
question to the executive. -/
def receiveBuffer (round : Round cfg) (m : Main cfg) : Main cfg :=
  if round.received = sbTimeOut then m
  else if round.received ≠ .success then
    { m with reports := m.reports ++ [.pipeErr round.received], runStatus := .appError }
  else m

def processMessage (round : Round cfg) (fuel : ℕ) (m : Main cfg) : Option (Main cfg) :=
  if round.received = .success then
    (processCommandPacket round.services fuel round.bufPtr m.state).map fun (s, actions) =>
      { m with state := s, actions := m.actions ++ actions }
  else some m

def mainTurn (round : Round cfg) (fuel : ℕ) (m : Main cfg) : Option (Main cfg) :=
  (manageTables round fuel m).bind fun m => processMessage round fuel (receiveBuffer round m)

/-- `while (CFE_ES_RunLoop(&RunStatus) == true)`; the flag tells that the loop was left
and CFE_ES_ExitApp called. -/
def mainLoop (fuel : ℕ) : List (Round cfg) → Main cfg → Option (Main cfg × Bool)
  | [], m => some (m, false)
  | round :: rounds, m =>
    let (goOn, runStatus) := round.runLoop m.runStatus
    let m := { m with runStatus := runStatus }
    if goOn then (mainTurn round fuel m).bind (mainLoop fuel rounds)
    else some (m, true)

def appMain (r : Resolver) (calls : AppInitCalls cfg) (fuel : ℕ) (rounds : List (Round cfg))
    (s : State cfg) : Option (Main cfg × Bool) :=
  (appInit r calls fuel s).bind fun (status, s) =>
    if status ≠ .success then mainLoop fuel rounds ⟨s, .appError, [.initFailed status], []⟩
    else mainLoop fuel rounds ⟨s, .appRun, [], []⟩

/-- What a round puts to the application: every table in turn, and a message if one came. -/
def manageInputs (round : Round cfg) (l : List (TblIndex cfg)) :
    List (Services cfg × Input cfg) :=
  l.map fun t => (round.tblServices t, .manage t (round.manage t))

def messageInput (round : Round cfg) : List (Services cfg × Input cfg) :=
  if round.received = .success then [(round.services, .message round.bufPtr)] else []

def roundInputs (round : Round cfg) : List (Services cfg × Input cfg) :=
  manageInputs round (List.finRange cfg.numDwellTables) ++ messageInput round

def statusAfter (round : Round cfg) (runStatus : RunStatus) : RunStatus :=
  if round.received ≠ sbTimeOut ∧ round.received ≠ .success then .appError else runStatus

/-- The rounds whose turn is taken. Nothing but the answers of the executive and of the
pipe decides that. -/
def taken : RunStatus → List (Round cfg) → List (Round cfg)
  | _, [] => []
  | runStatus, round :: rounds =>
    if (round.runLoop runStatus).1 then
      round :: taken (statusAfter round (round.runLoop runStatus).2) rounds
    else []

/-- The state of an execution of the step system, with all it did. -/
def outcomeOf (before : List (Action cfg))
    (q : List (State cfg × Label cfg) × State cfg) : State cfg × List (Action cfg) :=
  (q.2, before ++ q.1.flatMap fun p => p.2.actions)

def Main.visible (m : Main cfg) : State cfg × List (Action cfg) := (m.state, m.actions)

theorem receiveBuffer_state (round : Round cfg) (m : Main cfg) :
    (receiveBuffer round m).state = m.state := by
  rw [receiveBuffer]
  split_ifs <;> rfl

theorem receiveBuffer_actions (round : Round cfg) (m : Main cfg) :
    (receiveBuffer round m).actions = m.actions := by
  rw [receiveBuffer]
  split_ifs <;> rfl

theorem receiveBuffer_runStatus (round : Round cfg) (m : Main cfg) :
    (receiveBuffer round m).runStatus = statusAfter round m.runStatus := by
  rw [receiveBuffer, statusAfter]
  split_ifs <;> simp_all

end DwellMain
