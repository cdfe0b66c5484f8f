import MemoryDwell.MainLoop
import MemoryDwell.ReadResults
import MemoryDwell.EntryIndices

/-! # Where the main loop hangs

The body of the main loop has three loops without a bound of their own: the sampling loop
of a table, `while (!FinishedManaging)`, and the copy of a table, whose index is too small
for a large one. A main loop that never comes back has come to one that is never left. -/
namespace MainHangs

open DwellData DwellPkts DwellApp DwellDispatch DwellRuns DwellStreams DwellTraces DwellMain
open MainLoop WakeupEnds ReadResults EntryIndices FueledLoop TransitionRuns

variable {cfg : Config}

section Management

variable {W : Type} (r : Resolver) (calls : ManageCalls cfg W) (t : TblIndex cfg)

def validating (w : W) : Bool :=
  decide ((calls.getStatus w).1 = .tblInfoValidationPending ∧
    (calls.validate (calls.getStatus w).2).1 = .success)

def validated (w : W) : W := (calls.validate (calls.getStatus w).2).2

/-- An update is pending that MD will copy. -/
def Copies (w : W) : Prop :=
  let updated := calls.update (calls.getStatus w).2
  (calls.getStatus w).1 = .tblInfoUpdatePending ∧ updated.1 = .success ∧
    (calls.getAddress updated.2).1 = .tblInfoUpdated

/-- There is an end to the validations, and no copy behind them that never ends. -/
def Settles (w : W) : Prop :=
  ∃ fuel v, whileLoop (validating calls) (validated calls) fuel w = some v ∧
    (Copies calls v → cfg.dwellTableSize ≤ 255)

variable {r calls t} {copyFuel : ℕ} {s : State cfg}

theorem manageLoop_while (fuel : ℕ) (w : W) :
    manageLoop r calls copyFuel t s fuel w =
      (whileLoop (validating calls) (validated calls) fuel w).bind
        (manageLoop r calls copyFuel t s 1) := by
  induction fuel generalizing w with
  | zero => rfl
  | succ fuel ih =>
    cases hv : validating calls w with
    | true =>
      rw [while_enter hv, ← ih]
      obtain ⟨hp, hs⟩ := of_decide_eq_true hv
      simp only [manageLoop, hp, if_true, hs, ne_eq, not_true_eq_false, if_false]
      rfl
    | false =>
      rw [while_exit hv, Option.bind_some]
      have hno := of_decide_eq_false hv
      simp only [manageLoop]
      split_ifs with hp hs
      · rfl
      · exact absurd ⟨hp, not_not.mp hs⟩ hno
      · rfl
      · rfl
      · rfl

theorem lastTurn_ends_iff {w : W} (hv : validating calls w = false)
    (hf : cfg.dwellTableSize < copyFuel) :
    (∃ m, manageLoop r calls copyFuel t s 1 w = some m) ↔
      (Copies calls w → cfg.dwellTableSize ≤ 255) := by
  constructor
  · rintro ⟨m, hm⟩ ⟨hp, hu, hg⟩
    simp only [manageLoop, hp, reduceCtorEq, if_false, if_true, updateFromLoad, hu, hg,
      Option.map_eq_some_iff] at hm
    obtain ⟨s', hs, -⟩ := hm
    exact (copyAndStart_some hs).1
  · intro hn
    have hno := of_decide_eq_false hv
    simp only [manageLoop, updateFromLoad]
    split_ifs with hp hs hp' hu hg he
    · exact ⟨_, rfl⟩
    · exact absurd ⟨hp, not_not.mp hs⟩ hno
    · rw [copyAndStart_eq r (hn ⟨hp', hu, hg⟩) hf]
      exact ⟨_, rfl⟩
    · exact ⟨_, rfl⟩
    · exact ⟨_, rfl⟩
    · exact ⟨_, rfl⟩
    · exact ⟨_, rfl⟩

theorem manage_ends_iff {w : W} :
    (∃ fuel m, manageDwellTable r calls fuel t w s = some m) ↔ Settles calls w := by
  constructor
  · rintro ⟨fuel, m, hm⟩
    have hm := manageLoop_mono (Nat.le_add_right fuel (cfg.dwellTableSize + 1)) le_rfl hm
    rw [manageLoop_while, Option.bind_eq_some_iff] at hm
    obtain ⟨v, hv, hm⟩ := hm
    have hexit := (while_invariant (I := fun _ => True) (fun _ _ _ => trivial) trivial hv).2
    exact ⟨fuel, v, hv, (lastTurn_ends_iff hexit (by omega)).mp ⟨m, hm⟩⟩
  · rintro ⟨fuel, v, hv, hn⟩
    have hexit := (while_invariant (I := fun _ => True) (fun _ _ _ => trivial) trivial hv).2
    obtain ⟨m, hm⟩ := (lastTurn_ends_iff (r := r) (t := t) (s := s) hexit
      (show cfg.dwellTableSize < max fuel (cfg.dwellTableSize + 1) by omega)).mpr hn
    refine ⟨max fuel (cfg.dwellTableSize + 1), m, ?_⟩
    rw [manageDwellTable, manageLoop_while, while_mono (Nat.le_max_left _ _) hv, Option.bind_some,
      hm]

end Management

/-- The input is never done with. -/
inductive Hangs (s : State cfg) : Services cfg × Input cfg → Prop where
  | manage {svc t calls} : ¬ Settles calls 0 → Hangs s (svc, .manage t calls)
  | wakeup {svc msg t} : msg.msgId = .wakeup → msg.size = bareMsgLength cfg →
      Endless (s.dwellTables t) → Hangs s (svc, .message (some msg))

theorem message_ends_iff {s : State cfg} (hs : ∀ t, InTable (s.dwellTables t))
    {svc : Services cfg} {bufPtr : Option (Message cfg)} :
    (∃ fuel q, processCommandPacket svc fuel bufPtr s = some q) ↔
      ¬ Hangs s (svc, .message bufPtr) := by
  cases bufPtr with
  | none => exact iff_of_true ⟨0, _, rfl⟩ (by rintro ⟨⟩)
  | some msg =>
    have others : msg.msgId ≠ .wakeup → ¬ Hangs s (svc, .message (some msg)) := by
      rintro hne ⟨⟩
      contradiction
    simp only [processCommandPacket]
    cases hid : msg.msgId with
    | wakeup =>
      by_cases hl : msg.size = bareMsgLength cfg
      · simp only [hl, ne_eq, not_true_eq_false, if_false]
        have hends : (∃ fuel w, dwellLoop svc fuel s = some w) ↔ ∀ t, ¬ Endless (s.dwellTables t) :=
          dwellLoop_ends_iff fun t => (hs t).addrCount
        constructor
        · rintro ⟨fuel, q, hq⟩ h
          rw [Option.map_eq_some_iff] at hq
          obtain ⟨w, hw, -⟩ := hq
          cases h with
          | wakeup _ _ he => exact hends.mp ⟨fuel, w, hw⟩ _ he
        · intro h
          obtain ⟨fuel, w, hw⟩ := hends.mpr fun t he => h (.wakeup hid hl he)
          exact ⟨fuel, _, by rw [hw, Option.map_some]⟩
      · simp only [ne_eq, hl, not_false_eq_true, if_true]
        refine iff_of_true ⟨0, _, rfl⟩ ?_
        rintro ⟨⟩
        contradiction
    | cmd => exact iff_of_true ⟨0, _, rfl⟩ (others (by simp [hid]))
    | sendHk =>
      refine iff_of_true ⟨0, ?_⟩ (others (by simp [hid]))
      split_ifs <;> exact ⟨_, rfl⟩
    | other v => exact iff_of_true ⟨0, _, rfl⟩ (others (by simp [hid]))

theorem exec_ends_iff {s : State cfg} (hs : ∀ t, InTable (s.dwellTables t))
    (k : Services cfg × Input cfg) : (∃ fuel q, exec fuel s k = some q) ↔ ¬ Hangs s k := by
  obtain ⟨svc, ⟨t, calls⟩ | bufPtr⟩ := k
  · have hends : (∃ fuel m, manageDwellTable svc.toResolver calls fuel t 0 s = some m) ↔
        Settles calls 0 := manage_ends_iff
    simp only [exec_manage, Option.map_eq_some_iff]
    constructor
    · rintro ⟨fuel, -, m, hm, -⟩ h
      cases h with
      | manage hno => exact hno (hends.mp ⟨fuel, m, hm⟩)
    · intro h
      obtain ⟨fuel, m, hm⟩ := hends.mpr (not_not.mp fun hno => h (.manage hno))
      exact ⟨fuel, _, m, hm, rfl⟩
  · rw [← message_ends_iff hs]
    simp only [exec_message, Option.map_eq_some_iff]
    constructor
    · rintro ⟨fuel, -, q, hq, -⟩
      exact ⟨fuel, q, hq⟩
    · rintro ⟨fuel, q, hq⟩
      exact ⟨fuel, _, q, hq, rfl⟩

section Application

variable {r : Resolver} {calls : AppInitCalls cfg} {raw s₁ : State cfg}

theorem appMain_none_iff (hi : ∃ fuel, appInit r calls fuel raw = some (.success, s₁))
    (rounds : List (Round cfg)) :
    (∀ fuel, appMain r calls fuel rounds raw = none) ↔
      ∀ fuel, runAll (exec fuel) s₁ ((taken .appRun rounds).flatMap roundInputs) = none := by
  obtain ⟨a, ha⟩ := hi
  have loop : ∀ fuel, mainLoop fuel rounds ⟨s₁, .appRun, [], []⟩ = none ↔
      runAll (exec fuel) s₁ ((taken .appRun rounds).flatMap roundInputs) = none := by
    intro fuel
    have he := mainLoop_runAll fuel ⟨s₁, .appRun, [], []⟩ rounds
    rw [← Option.map_eq_none_iff (f := Prod.fst), ← Option.map_eq_none_iff (f := Main.visible), he,
      Option.map_eq_none_iff]
  constructor
  · intro h fuel
    by_contra hne
    obtain ⟨q, hq⟩ := Option.ne_none_iff_exists'.mp hne
    have hmain := h (max a fuel)
    rw [appMain_started (appInit_mono (Nat.le_max_left a fuel) ha), loop,
      runAll_mono (exec_mono (Nat.le_max_right a fuel)) hq] at hmain
    cases hmain
  · intro h fuel
    cases hb : appInit r calls fuel raw with
    | none => rw [appMain, hb, Option.bind_none]
    | some v =>
      have hmax := appInit_mono (Nat.le_max_left a fuel) ha
      rw [appInit_mono (Nat.le_max_right a fuel) hb] at hmax
      cases hmax
      rw [appMain_started hb]
      exact (loop fuel).mpr (h fuel)

theorem inTable_run {tr : List (State cfg × Label cfg)} {s : State cfg}
    (hi : ∃ fuel, appInit r calls fuel raw = some (.success, s₁)) (run : Run AnyStep s₁ tr s) :
    ∀ t, InTable (s.dwellTables t) := by
  have ignored : IgnoresLog (EveryState fun s : State cfg => ∀ t, InTable (s.dwellTables t)) := by
    apply ignoresLog_everyState
    rintro s _ ⟨log, rfl⟩ h
    exact h
  refine (runs_inherit hi ignored (fun s₀ tr s h₀ run => ?_) run).2
  exact run.invariant (I := fun s => ∀ t, InTable (s.dwellTables t))
    (fun _ _ _ hs st t => inTable_step st t (hs t)) (inTable_started h₀)

/-- A run through the first inputs of the rounds, to an input that is never done with. -/
structure ComesTo (rounds : List (Round cfg)) (s₁ : State cfg) (tr : List (State cfg × Label cfg))
    (s : State cfg) (k : Services cfg × Input cfg) : Prop where
  run : Run AnyStep s₁ tr s
  inputs : ∃ rest, (taken .appRun rounds).flatMap roundInputs =
    (tr.map fun p => Label.call p.2) ++ k :: rest
  hangs : Hangs s k

theorem comesTo_of_none {rounds : List (Round cfg)}
    (hi : ∃ fuel, appInit r calls fuel raw = some (.success, s₁))
    (h : ∀ fuel, appMain r calls fuel rounds raw = none) : ∃ tr s k, ComesTo rounds s₁ tr s k := by
  rw [appMain_none_iff hi, runAll_stuck_iff exec Label.call exec_mono exec_call] at h
  obtain ⟨tr, s, k, rest, run, hin, hstuck⟩ := h
  refine ⟨tr, s, k, run, ⟨rest, hin⟩, ?_⟩
  by_contra hno
  obtain ⟨fuel, q, hq⟩ := (exec_ends_iff (inTable_run hi run) k).mpr hno
  rw [hstuck fuel] at hq
  cases hq

theorem ComesTo.none {rounds : List (Round cfg)} {tr : List (State cfg × Label cfg)}
    {s : State cfg} {k : Services cfg × Input cfg} (h : ComesTo rounds s₁ tr s k)
    (hi : ∃ fuel, appInit r calls fuel raw = some (.success, s₁)) :
    ∀ fuel, appMain r calls fuel rounds raw = none := by
  obtain ⟨run, ⟨rest, hin⟩, hhangs⟩ := h
  rw [appMain_none_iff hi, runAll_stuck_iff exec Label.call exec_mono exec_call]
  refine ⟨tr, s, k, rest, run, hin, fun fuel => ?_⟩
  by_contra hne
  exact (exec_ends_iff (inTable_run hi run) k).mp ⟨fuel, Option.ne_none_iff_exists'.mp hne⟩ hhangs

/-- Behind a successful MD_AppInit, main never comes back from its rounds if and only if a
run through the first of their inputs comes to one that hangs: a management of a table
whose validations have no end, or with an update too large to be copied, or a wakeup that
finds a table due without a delay among its active entries. -/
theorem main_hangs_iff (hi : ∃ fuel, appInit r calls fuel raw = some (.success, s₁))
    (rounds : List (Round cfg)) :
    (∀ fuel, appMain r calls fuel rounds raw = none) ↔ ∃ tr s k, ComesTo rounds s₁ tr s k := by
  constructor
  · exact comesTo_of_none hi
  · rintro ⟨tr, s, k, h⟩
    exact h.none hi

/-- A pending validation is reported over and over, however often it succeeds. -/
def revalidating : Round Platform.config :=
  { Platform.round .success with
    manage := fun _ => { Platform.updateCalls with
      getStatus := fun w => (.tblInfoValidationPending, w) } }

theorem main_hangs_iff_revalidation :
    ¬ ∃ fuel q, appMain flatMemory.resolver Platform.calls fuel [revalidating]
      (blankState Platform.config) = some q := by
  obtain ⟨s₁, hi⟩ := Platform.init_succeeds
  have hang : ∀ fuel, appMain flatMemory.resolver Platform.calls fuel [revalidating]
      (blankState Platform.config) = none := by
    refine (main_hangs_iff ⟨9, hi⟩ _).mpr ⟨[], s₁, _, .nil s₁, ⟨_, rfl⟩, .manage ?_⟩
    rintro ⟨fuel, v, hv, -⟩
    rw [while_diverges (D := fun _ => True) ?_ trivial] at hv
    · cases hv
    · exact fun w _ => ⟨rfl, trivial⟩
  rintro ⟨fuel, q, hq⟩
  rw [hang fuel] at hq
  cases hq

/-- A Jam that Table Services refuses leaves a table with a rate, but with no delay. -/
def TakesLastDelay (l : Label cfg) (t : TblIndex cfg) (c : DwellPacketControl cfg) : Prop :=
  ∃ e new load, opOf l t = .jam e new load false ∧ 0 < c.rate ∧ e < c.addrCount ∧
    new.delay = 0 ∧ ∀ i < c.addrCount, i ≠ e → (c.entry i).delay = 0

/-- The summary of the table is counted again. -/
def Recounts (l : Label cfg) (t : TblIndex cfg) : Prop :=
  (∃ e new load, opOf l t = .jam e new load true) ∨ ∃ tbl, opOf l t = .load tbl true

theorem driven_recount {s s' : State cfg} {l : Label cfg} {t : TblIndex cfg} (st : AnyStep s l s')
    (h : Recounts l t) : Driven (s'.dwellTables t) := by
  obtain ⟨fuel, he⟩ := st
  have hst := exec_stream he t
  rcases h with ⟨e, new, load, hop⟩ | ⟨tbl, hop⟩
  · rw [hop] at hst
    have hc : s'.dwellTables t = _ := congrArg Stream.control hst.1
    rw [hc]
    exact driven_update _
  · rw [hop] at hst
    have hc : s'.dwellTables t = _ := congrArg Stream.control hst.1
    rw [hc]
    exact (driven_update _).of_contents (adopt_contents _ tbl _)

theorem driven_step {s s' : State cfg} {l : Label cfg} {t : TblIndex cfg} (st : AnyStep s l s')
    (h : Driven (s.dwellTables t)) (hl : ¬ TakesLastDelay l t (s.dwellTables t)) :
    Driven (s'.dwellTables t) := by
  by_cases hr : Recounts l t
  · exact driven_recount st hr
  obtain ⟨fuel, he⟩ := st
  have keeps : ∀ c, s'.dwellTables t = c → Driven c → Driven (s'.dwellTables t) :=
    fun c hc hd => hc ▸ hd
  rcases streamStep_control (exec_stream he t) with hc | ⟨_, -, hc⟩ | ⟨_, -, hc⟩ |
    ⟨e, new, load, hop, -⟩ | ⟨e, new, load, hop, hc⟩ | ⟨_, hc⟩ | ⟨tbl, hop, -⟩ |
    ⟨_, p, -, hpass, hc⟩
  · exact keeps _ hc h
  · exact keeps _ hc ⟨h.bound, h.delay⟩
  · exact keeps _ hc ⟨h.bound, h.delay⟩
  · exact absurd (Or.inl ⟨e, new, load, hop⟩) hr
  · refine keeps _ hc (driven_written h ?_)
    by_contra hno
    push Not at hno
    exact hl ⟨e, new, load, hop, Nat.pos_of_ne_zero hno.1, hno.2.1, hno.2.2.1, hno.2.2.2⟩
  · exact keeps _ hc ⟨h.bound, h.delay⟩
  · exact absurd (Or.inr ⟨tbl, hop⟩) hr
  · exact keeps _ hc (h.of_contents (dwellTable_contents hpass))

/-- A table that has lost its delays lost them to one step of the run, and nothing has
counted them since. -/
theorem undriven_cause {s s' : State cfg} {tr : List (State cfg × Label cfg)} {t : TblIndex cfg}
    (run : Run AnyStep s tr s') (h : Driven (s.dwellTables t)) (h' : ¬ Driven (s'.dwellTables t)) :
    ∃ before u l after, tr = before ++ (u, l) :: after ∧ TakesLastDelay l t (u.dwellTables t) ∧
      ∀ p ∈ after, ¬ Recounts p.2 t := by
  induction run with
  | nil => exact absurd h h'
  | @snoc v w tr l run st ih =>
    by_cases hv : Driven (v.dwellTables t)
    · exact ⟨tr, v, l, [], rfl, not_not.mp fun hl => h' (driven_step st hv hl), by simp⟩
    · obtain ⟨before, u, l', after, rfl, htakes, hsince⟩ := ih hv
      refine ⟨before, u, l', after ++ [(v, l)], by simp, htakes, ?_⟩
      rw [List.forall_mem_append, List.forall_mem_singleton]
      exact ⟨hsince, fun hr => h' (driven_recount st hr)⟩

theorem manage_of_rounds {rounds : List (Round cfg)} {before rest : List (Services cfg × Input cfg)}
    {svc : Services cfg} {t : TblIndex cfg} {mcalls : ManageCalls cfg ℕ}
    (h : (taken .appRun rounds).flatMap roundInputs = before ++ (svc, .manage t mcalls) :: rest) :
    ∃ round ∈ taken .appRun rounds, round.manage t = mcalls := by
  obtain ⟨round, hround, _, b, a, hin, -⟩ := flatMap_split h
  refine ⟨round, hround, ?_⟩
  have hmem : (svc, Input.manage t mcalls) ∈ roundInputs round := by simp [hin]
  rw [roundInputs, List.mem_append, manageInputs, List.mem_map, messageInput] at hmem
  rcases hmem with ⟨_, -, hk⟩ | hmem
  · cases hk
    rfl
  · split_ifs at hmem <;> simp at hmem

theorem endless_undriven {c : DwellPacketControl cfg} (h : Endless c) : ¬ Driven c := by
  intro hd
  obtain ⟨i, hi, hne⟩ := hd.delay (Nat.pos_iff_ne_zero.mp h.1.active.2)
  exact hne (h.2 i hi)

/-- As long as Table Services settles, main hangs for one reason only: in a wakeup, after a
Jam of the same run that Table Services refused and that took the last delay of the table,
with no accepted Jam and no copied update for that table in between. -/
theorem hang_has_cause {rounds : List (Round cfg)}
    (hi : ∃ fuel, appInit r calls fuel raw = some (.success, s₁))
    (settled : ∀ round ∈ taken .appRun rounds, ∀ t, Settles (round.manage t) 0)
    (hang : ∀ fuel, appMain r calls fuel rounds raw = none) :
    ∃ before u l after s svc msg t,
      ComesTo rounds s₁ (before ++ (u, l) :: after) s (svc, .message (some msg)) ∧
      msg.msgId = .wakeup ∧ Endless (s.dwellTables t) ∧ TakesLastDelay l t (u.dwellTables t) ∧
      ∀ p ∈ after, ¬ Recounts p.2 t := by
  obtain ⟨tr, s, k, run, hin, hhangs⟩ := comesTo_of_none hi hang
  obtain ⟨a, ha⟩ := hi
  obtain ⟨s₀, h₀, rfl⟩ := appInit_started ha
  cases hhangs with
  | manage hno =>
    obtain ⟨rest, hrest⟩ := hin
    obtain ⟨round, hround, hcalls⟩ := manage_of_rounds hrest
    exact absurd (hcalls ▸ settled round hround _) hno
  | @wakeup svc msg t hid hl he =>
    obtain ⟨before, u, l, after, rfl, htakes, hsince⟩ :=
      undriven_cause run (driven_started h₀ t) (endless_undriven he)
    exact ⟨before, u, l, after, s, svc, msg, t, ⟨run, hin, .wakeup hid hl he⟩, hid, he, htakes,
      hsince⟩

end Application

namespace Refused

open Platform (config)

def quiet : ManageCalls config ℕ :=
  { Platform.updateCalls with getStatus := fun w => (.success, w) }

def jam : Round config :=
  { Platform.round .success with
    manage := fun _ => quiet
    bufPtr := some { blankMsg config .cmd jamDwellCC config.jamDwellCmdSize with
      jam := ⟨1, 1, 1, 0, 16, .zeros _⟩ }
    services := smallServices config (.error 1) }

def wakeup : Round config := { Platform.round .success with manage := fun _ => quiet }

def inputs : List (Services config × Input config) :=
  roundInputs jam ++ manageInputs wakeup (List.finRange _)

theorem taken_rounds : taken .appRun [jam, wakeup] = [jam, wakeup] := by
  simp [taken, jam, wakeup, Platform.round, statusAfter]

theorem quiet_settles : Settles quiet 0 := by
  refine ⟨1, 0, rfl, ?_⟩
  rintro ⟨h, -⟩
  cases h

theorem comesTo_wakeup {s₁ : State config}
    (hi : appInit flatMemory.resolver Platform.calls 9 (blankState config) = some (.success, s₁)) :
    ∃ tr s, ComesTo [jam, wakeup] s₁ tr s (wakeup.services, .message wakeup.bufPtr) := by
  have h : (appInit flatMemory.resolver Platform.calls 9 (blankState config)).all
      (fun q => (runAll (exec 9) q.2 inputs).any fun w => decide (Endless (w.2.dwellTables 0))) =
      true := by decide +kernel
  rw [hi, Option.all_some] at h
  obtain ⟨⟨tr, s⟩, hr, he⟩ := (Option.any_eq_true _ _).mp h
  obtain ⟨run, hcalls⟩ := run_of_exec hr
  refine ⟨tr, s, run, ⟨[], ?_⟩, .wakeup rfl rfl (of_decide_eq_true he)⟩
  rw [hcalls, taken_rounds]
  simp [inputs, roundInputs, messageInput, wakeup, Platform.round]

end Refused

/-- The Jam comes in the first round, the wakeup in the second. -/
theorem hang_has_cause_jam :
    ∃ s₁ before u l after s svc msg t,
      ComesTo [Refused.jam, Refused.wakeup] s₁ (before ++ (u, l) :: after) s
        (svc, .message (some msg)) ∧
      msg.msgId = .wakeup ∧ Endless (s.dwellTables t) ∧ TakesLastDelay l t (u.dwellTables t) ∧
      ∀ p ∈ after, ¬ Recounts p.2 t := by
  obtain ⟨s₁, hi⟩ := Platform.init_succeeds
  obtain ⟨tr, s, h⟩ := Refused.comesTo_wakeup hi
  refine ⟨s₁, hang_has_cause ⟨9, hi⟩ ?_ (h.none ⟨9, hi⟩)⟩
  rw [Refused.taken_rounds]
  simp only [List.forall_mem_cons]
  exact ⟨fun _ => Refused.quiet_settles, fun _ => Refused.quiet_settles, by simp⟩

end MainHangs
