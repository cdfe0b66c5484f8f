import MemoryDwell.StreamInit

/-! # Executed runs

A run computed from a start and a list of inputs is a run of the application. The inputs
below are those of a small platform: one dwell table, flat memory up to address 1000 and
no symbols. -/
namespace DwellTraces

open DwellData DwellPkts DwellApp DwellDispatch DwellRuns TransitionRuns

variable {cfg : Config}

def execDefined (fuel : ℕ) (s : State cfg) (k : Services cfg × Input cfg) :
    Option (Label cfg × State cfg) :=
  (exec fuel s k).filter fun q => q.1.actions.all fun a => decide (ActionDefined a)

def Label.call (l : Label cfg) : Services cfg × Input cfg := (l.services, l.input)

theorem exec_call {fuel : ℕ} {s s' : State cfg} {k : Services cfg × Input cfg} {l : Label cfg}
    (h : exec fuel s k = some (l, s')) : Label.call l = k := by
  obtain ⟨svc, input⟩ := k
  cases input <;>
    simp only [exec, Option.map_eq_some_iff, Prod.mk.injEq] at h <;>
    obtain ⟨_, _, rfl, _⟩ := h <;> rfl

theorem execDefined_step {fuel : ℕ} {s s' : State cfg} {k : Services cfg × Input cfg}
    {l : Label cfg} (h : execDefined fuel s k = some (l, s')) : Step s l s' ∧ Label.call l = k := by
  simp only [execDefined, Option.filter_eq_some_iff, List.all_eq_true, decide_eq_true_eq] at h
  have hk := exec_call h.1
  exact ⟨⟨⟨fuel, by rw [show (l.services, l.input) = k from hk]; exact h.1⟩, h.2⟩, hk⟩

def start (r : Resolver) (calls : InitCalls cfg) (fuel : ℕ) (raw : State cfg) :
    Option (State cfg) :=
  match initTableServices r calls fuel (prepared raw) with
  | some (.success, s) => some s
  | _ => none

theorem start_started {r : Resolver} {calls : InitCalls cfg} {fuel : ℕ} {raw s : State cfg}
    (h : start r calls fuel raw = some s) : Started r calls s := by
  rw [start] at h
  split at h
  next s' hs =>
    cases h
    exact ⟨raw, fuel, hs⟩
  · cases h

/-- A start and the run that follows. -/
def flight (r : Resolver) (calls : InitCalls cfg) (fuel : ℕ) (raw : State cfg)
    (ks : List (Services cfg × Input cfg)) :
    Option (State cfg × List (State cfg × Label cfg) × State cfg) :=
  match start r calls fuel raw with
  | none => none
  | some s => (runAll (execDefined fuel) s ks).map fun q => (s, q)

/-- A check on a computed run is a fact about a run of the application. -/
theorem flight_from (r : Resolver) (calls : InitCalls cfg) (fuel : ℕ) (raw : State cfg)
    (ks : List (Services cfg × Input cfg))
    (p : State cfg → List (State cfg × Label cfg) → State cfg → Bool)
    (h : (flight r calls fuel raw ks).any (fun q => p q.1 q.2.1 q.2.2) = true) :
    ∃ s₀ tr s, start r calls fuel raw = some s₀ ∧ Run Step s₀ tr s ∧
      tr.map (fun q => Label.call q.2) = ks ∧ p s₀ tr s = true := by
  rw [flight] at h
  cases hs : start r calls fuel raw with
  | none => simp [hs] at h
  | some s₀ =>
    simp only [hs] at h
    cases hr : runAll (execDefined fuel) s₀ ks with
    | none => simp [hr] at h
    | some q =>
      simp only [hr, Option.map_some, Option.any_some] at h
      obtain ⟨run, hm⟩ := runAll_run (fun _ _ _ _ he => execDefined_step he) hr
      exact ⟨s₀, q.1, q.2, rfl, run, hm, h⟩

theorem flight_run (r : Resolver) (calls : InitCalls cfg) (fuel : ℕ) (raw : State cfg)
    (ks : List (Services cfg × Input cfg))
    (p : State cfg → List (State cfg × Label cfg) → State cfg → Bool)
    (h : (flight r calls fuel raw ks).any (fun q => p q.1 q.2.1 q.2.2) = true) :
    ∃ s₀ tr s, Started r calls s₀ ∧ Run Step s₀ tr s ∧
      tr.map (fun q => Label.call q.2) = ks ∧ p s₀ tr s = true := by
  obtain ⟨s₀, tr, s, hs, hrun⟩ := flight_from r calls fuel raw ks p h
  exact ⟨s₀, tr, s, start_started hs, hrun⟩

theorem flight_first (r : Resolver) (calls : InitCalls cfg) (fuel : ℕ) (raw : State cfg)
    (k : Services cfg × Input cfg) (ks : List (Services cfg × Input cfg))
    (p : State cfg → Label cfg → List (State cfg × Label cfg) → State cfg → Bool)
    (h : (flight r calls fuel raw (k :: ks)).any (fun q => match q.2.1 with
      | [] => false
      | (s, l) :: tr => p s l tr q.2.2) = true) :
    ∃ s₀ l s tr s', Started r calls s₀ ∧ Step s₀ l s ∧ Run Step s tr s' ∧ Label.call l = k ∧
      tr.map (fun q => Label.call q.2) = ks ∧ p s₀ l tr s' = true := by
  rw [flight] at h
  cases hs : start r calls fuel raw with
  | none => simp [hs] at h
  | some s₀ =>
    simp only [hs, runAll] at h
    cases he : execDefined fuel s₀ k with
    | none => simp [he] at h
    | some q =>
      simp only [he] at h
      cases hr : runAll (execDefined fuel) q.2 ks with
      | none => simp [hr] at h
      | some v =>
        simp only [hr, Option.map_some, Option.any_some] at h
        obtain ⟨run, hm⟩ := runAll_run (fun _ _ _ _ he => execDefined_step he) hr
        obtain ⟨st, hk⟩ := execDefined_step he
        exact ⟨s₀, q.1, q.2, v.1, v.2, start_started hs, st, run, hk, hm, h⟩

theorem everyStep_of_calls {tr : List (State cfg × Label cfg)}
    {ks : List (Services cfg × Input cfg)} (h : tr.map (fun q => Label.call q.2) = ks)
    {P : Services cfg × Input cfg → Prop} (hp : ∀ k ∈ ks, P k) :
    EveryStep (fun _ l => P (l.services, l.input)) tr := by
  subst h
  intro q hq
  exact hp _ (List.mem_map_of_mem hq)

section Platform

def smallConfig (size : ℕ) (lo : 1 ≤ size) (hi : size ≤ 65535) : Config where
  numDwellTables := 1
  dwellTableSize := size
  signatureFieldLength := 4
  maxPathLen := 2
  addrWidth := 32
  cmdHeaderSize := 8
  tlmHeaderSize := 12
  jamDwellCmdSize := 22
  tables_pos := le_rfl
  tables_le := by decide
  size_pos := lo
  size_le := hi
  signature_aligned := rfl
  signature_min := le_rfl
  path_pos := by decide

def threeEntries : Config := smallConfig 3 (by decide) (by decide)

/-- Two characters fill the field. -/
def fullName : CharField threeEntries.maxPathLen := ⟨[65, 66], rfl⟩

/-- One entry more than an eight-bit index can count. -/
def manyEntries : Config := smallConfig 256 (by decide) (by decide)

def twoTables : Config :=
  { threeEntries with
    numDwellTables := 2
    tables_pos := Nat.two_pos
    tables_le := by decide }

def blankState (cfg : Config) : State cfg where
  cmdCounter := 0
  errCounter := 0
  hkPkt := ⟨0, 0, 0, fun _ => 0, fun _ => 0, fun _ => 0, fun _ => 0, fun _ => 0, fun _ => 0⟩
  dwellTables _ := zeroControl cfg
  dwellPkt _ := initMsg cfg
  tblBuffer _ := ⟨0, .zeros _, fun _ => ⟨0, 0, 0, .zeros _⟩⟩
  events := []

def flatMemory : MemoryMap := ⟨fun _ => none, fun addr size => addr + size ≤ 1000⟩

def flatTables (cfg : Config) : TableMemory cfg :=
  { flatMemory with behind := fun _ _ => [], behind_congr := fun _ _ _ _ => rfl }

theorem flatMemory_answers (cfg : Config) : flatMemory.Answers cfg flatMemory.resolver :=
  ⟨_, (DwellUtils.reader_nil flatMemory cfg.maxPathLen).symm⟩

/-- Memory holds at each address the address itself, and `granted` tells what Table
Services answers to a request for an address. -/
def smallServices (cfg : Config) (granted : CFEStatus) : Services cfg where
  toResolver := flatMemory.resolver
  getAddress _ := granted
  memRead _ _ addr _ := some fun i => UInt8.ofNat (addr + i)
  messageStringGet name := name

def loadEntry (cfg : Config) (length delay : UInt16) (offset : ℕ) : TableLoadEntry cfg :=
  ⟨length, delay, offset, .zeros _⟩

def loadTable (cfg : Config) (enabled : ℕ) (entries : List (TableLoadEntry cfg)) :
    DwellTableLoad cfg :=
  ⟨enabled, .zeros _, fun i => entries.getD i (loadEntry cfg 0 0 0)⟩

/-- Every table is recovered with the same contents. -/
def recoverAll (tbl : DwellTableLoad cfg) : InitCalls cfg where
  tableName _ := 10
  tblFileName _ := 10
  register _ := .tblInfoRecoveredTbl
  recovered _ := tbl
  getAddress _ := .tblInfoUpdated
  load _ := .success
  file _ := tbl

def blankMsg (cfg : Config) (id : MsgId) (fcnCode size : ℕ) : Message cfg :=
  ⟨id, fcnCode, size, ⟨0⟩, ⟨0, 0, 0, 0, 0, .zeros _⟩, ⟨0, .zeros _⟩⟩

def wakeupMsg (cfg : Config) : Input cfg :=
  .message (some (blankMsg cfg .wakeup 0 (bareMsgLength cfg)))

def startMsg (cfg : Config) (mask : UInt16) : Input cfg :=
  .message (some { blankMsg cfg .cmd startDwellCC (cfg.cmdHeaderSize + 4) with
    startStop := ⟨mask⟩ })

def stopMsg (cfg : Config) (mask : UInt16) : Input cfg :=
  .message (some { blankMsg cfg .cmd stopDwellCC (cfg.cmdHeaderSize + 4) with
    startStop := ⟨mask⟩ })

def jamMsg (cfg : Config) (tableId entryId length delay : UInt16) (offset : ℕ) : Input cfg :=
  .message (some { blankMsg cfg .cmd jamDwellCC cfg.jamDwellCmdSize with
    jam := ⟨tableId, entryId, length, delay, offset, .zeros _⟩ })

end Platform

end DwellTraces
