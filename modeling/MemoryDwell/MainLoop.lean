import MemoryDwell.DwellMain
import MemoryDwell.InitAccounting
import MemoryDwell.StateRelations

/-! # The main loop refines the steps

The runs of the other modules take their steps in any order. The main loop takes some of
them: in every round all tables, then at most one message. -/
namespace MainLoop

open DwellData DwellTbl DwellPkts DwellApp DwellDispatch DwellRuns DwellStreams DwellTraces
open DwellMain StreamInit InitAccounting FueledLoop TransitionRuns Lockstep StateRelations

variable {cfg : Config}

/-! ## Executions -/

section Executions

variable {round : Round cfg} {fuel : ℕ} {m : Main cfg}

theorem exec_manage (svc : Services cfg) (t : TblIndex cfg) (calls : ManageCalls cfg ℕ)
    (s : State cfg) :
    exec fuel s (svc, .manage t calls) =
      (manageDwellTable svc.toResolver calls fuel t 0 s).map fun managed =>
        (⟨svc, .manage t calls, managed.actions⟩, managed.state) := rfl

theorem exec_message (svc : Services cfg) (bufPtr : Option (Message cfg)) (s : State cfg) :
    exec fuel s (svc, .message bufPtr) =
      (processCommandPacket svc fuel bufPtr s).map fun q =>
        (⟨svc, .message bufPtr, q.2⟩, q.1) := rfl

private theorem manageTurns_runAll (l : List (TblIndex cfg)) :
    (l.foldlM (fun m t => (manageDwellTable (round.tblServices t).toResolver (round.manage t) fuel
        t 0 m.state).map fun managed =>
          { m with state := managed.state, actions := m.actions ++ managed.actions })
      m).map Main.visible =
      (runAll (exec fuel) m.state (manageInputs round l)).map (outcomeOf m.actions) := by
  induction l generalizing m with
  | nil => simp [manageInputs, runAll, outcomeOf, Main.visible]
  | cons t l ih =>
    rw [manageInputs, List.map_cons, runAll_cons, List.foldlM_cons, exec_manage]
    cases manageDwellTable (round.tblServices t).toResolver (round.manage t) fuel t 0 m.state with
    | none => rfl
    | some managed =>
      simp only [Option.map_some, Option.bind_eq_bind, Option.bind_some, ih, manageInputs,
        Option.map_map]
      congr 1
      funext q
      simp [outcomeOf]

theorem manageTables_runAll :
    (manageTables round fuel m).map Main.visible =
      (runAll (exec fuel) m.state (manageInputs round (List.finRange _))).map
        (outcomeOf m.actions) := manageTurns_runAll _

theorem processMessage_runAll :
    (processMessage round fuel m).map Main.visible =
      (runAll (exec fuel) m.state (messageInput round)).map (outcomeOf m.actions) := by
  rw [processMessage, messageInput]
  split_ifs
  · rw [runAll_cons, exec_message]
    cases processCommandPacket round.services fuel round.bufPtr m.state with
    | none => rfl
    | some q => simp [runAll, outcomeOf, Main.visible]
  · simp [runAll, outcomeOf, Main.visible]

theorem manageTables_rest {m' : Main cfg} (h : manageTables round fuel m = some m') :
    m'.runStatus = m.runStatus ∧ m'.reports = m.reports := by
  refine foldlM_keeps (I := fun x : Main cfg => x.runStatus = m.runStatus ∧
    x.reports = m.reports) ?_ ⟨rfl, rfl⟩ h
  intro x t y hx hy
  rw [Option.map_eq_some_iff] at hy
  obtain ⟨_, -, rfl⟩ := hy
  exact hx

theorem processMessage_rest {m' : Main cfg} (h : processMessage round fuel m = some m') :
    m'.runStatus = m.runStatus ∧ m'.reports = m.reports := by
  rw [processMessage] at h
  split_ifs at h
  · rw [Option.map_eq_some_iff] at h
    obtain ⟨_, -, rfl⟩ := h
    exact ⟨rfl, rfl⟩
  · cases h
    exact ⟨rfl, rfl⟩

def reportsOf (round : Round cfg) : List Report :=
  if round.received ≠ sbTimeOut ∧ round.received ≠ .success then [.pipeErr round.received] else []

theorem receiveBuffer_reports (round : Round cfg) (m : Main cfg) :
    (receiveBuffer round m).reports = m.reports ++ reportsOf round := by
  rw [receiveBuffer, reportsOf]
  split_ifs <;> simp_all

theorem mainTurn_rest {m' : Main cfg} (h : mainTurn round fuel m = some m') :
    m'.runStatus = statusAfter round m.runStatus ∧ m'.reports = m.reports ++ reportsOf round := by
  rw [mainTurn, Option.bind_eq_some_iff] at h
  obtain ⟨v, hv, h⟩ := h
  obtain ⟨hs, hr⟩ := processMessage_rest h
  obtain ⟨hvs, hvr⟩ := manageTables_rest hv
  rw [receiveBuffer_runStatus, hvs] at hs
  rw [receiveBuffer_reports, hvr] at hr
  exact ⟨hs, hr⟩

private theorem visible_bind {ks ks' : List (Services cfg × Input cfg)} {s : State cfg}
    {before : List (Action cfg)} {x : Option (Main cfg)} {f : Main cfg → Option (Main cfg)}
    (hx : x.map Main.visible = (runAll (exec fuel) s ks).map (outcomeOf before))
    (hf : ∀ v, x = some v →
      (f v).map Main.visible = (runAll (exec fuel) v.state ks').map (outcomeOf v.actions)) :
    (x.bind f).map Main.visible = (runAll (exec fuel) s (ks ++ ks')).map (outcomeOf before) := by
  rw [runAll_append]
  cases x with
  | none =>
    cases hq : runAll (exec fuel) s ks with
    | none => rfl
    | some q =>
      rw [hq] at hx
      cases hx
  | some v =>
    cases hq : runAll (exec fuel) s ks with
    | none =>
      rw [hq] at hx
      cases hx
    | some q =>
      rw [hq] at hx
      simp only [Option.map_some, Option.some.injEq, Main.visible, outcomeOf, Prod.mk.injEq] at hx
      rw [Option.bind_some, Option.bind_some, hf v rfl, hx.1, hx.2, Option.map_map]
      congr 1
      funext w
      simp [outcomeOf]

theorem mainTurn_runAll :
    (mainTurn round fuel m).map Main.visible =
      (runAll (exec fuel) m.state (roundInputs round)).map (outcomeOf m.actions) := by
  apply visible_bind manageTables_runAll
  intro v _
  rw [processMessage_runAll, receiveBuffer_state, receiveBuffer_actions]

theorem mainLoop_cons (round : Round cfg) (rounds : List (Round cfg)) :
    mainLoop fuel (round :: rounds) m =
      if (round.runLoop m.runStatus).1 then
        (mainTurn round fuel { m with runStatus := (round.runLoop m.runStatus).2 }).bind
          (mainLoop fuel rounds)
      else some ({ m with runStatus := (round.runLoop m.runStatus).2 }, true) := rfl

/-- The loop is the execution of the inputs of the rounds that are taken: it ends where
that ends, in the same state, having done the same. -/
theorem mainLoop_runAll (fuel : ℕ) (m : Main cfg) (rounds : List (Round cfg)) :
    ((mainLoop fuel rounds m).map Prod.fst).map Main.visible =
      (runAll (exec fuel) m.state ((taken m.runStatus rounds).flatMap roundInputs)).map
        (outcomeOf m.actions) := by
  induction rounds generalizing m with
  | nil => simp [mainLoop, taken, runAll, outcomeOf, Main.visible]
  | cons round rounds ih =>
    rw [mainLoop_cons, taken]
    split_ifs with hgo
    · rw [List.flatMap_cons, Option.map_bind]
      apply visible_bind (mainTurn_runAll (m := { m with
        runStatus := (round.runLoop m.runStatus).2 }))
      intro v hv
      rw [Function.comp_apply, ih, (mainTurn_rest hv).1]
    · simp [runAll, outcomeOf, Main.visible]

end Executions

/-! ## More fuel changes nothing -/

theorem copyUpdatedTbl_mono {r : Resolver} {tbl : DwellTableLoad cfg} {a b : ℕ} (hab : a ≤ b)
    {c d : DwellPacketControl cfg} (h : copyUpdatedTbl r a tbl c = some d) :
    copyUpdatedTbl r b tbl c = some d := by
  rw [copyUpdatedTbl, Option.map_eq_some_iff] at h ⊢
  obtain ⟨v, hv, rfl⟩ := h
  exact ⟨v, while_mono hab hv, rfl⟩

theorem copyAndStart_mono {r : Resolver} {a b : ℕ} (hab : a ≤ b) {t : TblIndex cfg}
    {s s' : State cfg} (h : copyAndStart r a t s = some s') : copyAndStart r b t s = some s' := by
  rw [copyAndStart, Option.map_eq_some_iff] at h ⊢
  obtain ⟨c, hc, rfl⟩ := h
  exact ⟨c, copyUpdatedTbl_mono hab hc, rfl⟩

theorem updateFromLoad_mono {W : Type} {r : Resolver} {calls : ManageCalls cfg W} {a b : ℕ}
    (hab : a ≤ b) {t : TblIndex cfg} {w : W} {s : State cfg} {m : Managed cfg W}
    (h : updateFromLoad r calls a t w s = some m) : updateFromLoad r calls b t w s = some m := by
  simp only [updateFromLoad] at h ⊢
  split_ifs at h ⊢
  · rw [Option.map_eq_some_iff] at h ⊢
    obtain ⟨s', hs, rfl⟩ := h
    exact ⟨s', copyAndStart_mono hab hs, rfl⟩
  · exact h
  · exact h

theorem manageLoop_mono {W : Type} {r : Resolver} {calls : ManageCalls cfg W} {a b : ℕ}
    (hab : a ≤ b) {t : TblIndex cfg} {s : State cfg} {m : Managed cfg W} {fuel more : ℕ}
    (hf : fuel ≤ more) {w : W} (h : manageLoop r calls a t s fuel w = some m) :
    manageLoop r calls b t s more w = some m := by
  induction fuel generalizing w more with
  | zero => cases h
  | succ fuel ih =>
    obtain ⟨more, rfl⟩ : ∃ n, more = n + 1 := ⟨more - 1, by omega⟩
    simp only [manageLoop] at h ⊢
    split_ifs at h ⊢
    · exact h
    · exact ih (by omega) h
    · exact updateFromLoad_mono hab h
    · exact h
    · exact h

theorem dwellLoop_mono {svc : Services cfg} {a b : ℕ} (hab : a ≤ b) {s : State cfg}
    {w : Wakeup cfg} (h : dwellLoop svc a s = some w) : dwellLoop svc b s = some w := by
  refine foldlM_mono ?_ h
  intro v t u hu
  rw [dwellTurn, Option.map_eq_some_iff] at hu ⊢
  obtain ⟨p, hp, rfl⟩ := hu
  exact ⟨p, dwellTable_mono hab hp, rfl⟩

theorem processCommandPacket_mono {svc : Services cfg} {a b : ℕ} (hab : a ≤ b)
    {bufPtr : Option (Message cfg)} {s : State cfg} {q : State cfg × List (Action cfg)}
    (h : processCommandPacket svc a bufPtr s = some q) :
    processCommandPacket svc b bufPtr s = some q := by
  cases bufPtr with
  | none => exact h
  | some msg =>
    simp only [processCommandPacket] at h ⊢
    cases hid : msg.msgId with
    | wakeup =>
      simp only [hid] at h ⊢
      split_ifs at h ⊢
      · exact h
      · rw [Option.map_eq_some_iff] at h ⊢
        obtain ⟨w, hw, hq⟩ := h
        exact ⟨w, dwellLoop_mono hab hw, hq⟩
    | _ =>
      simp only [hid] at h ⊢
      exact h

theorem exec_mono {a b : ℕ} {s : State cfg} {k : Services cfg × Input cfg}
    {q : Label cfg × State cfg} (hab : a ≤ b) (h : exec a s k = some q) : exec b s k = some q := by
  obtain ⟨svc, ⟨t, calls⟩ | bufPtr⟩ := k
  · rw [exec_manage, Option.map_eq_some_iff] at h ⊢
    obtain ⟨m, hm, hq⟩ := h
    exact ⟨m, manageLoop_mono hab hab hm, hq⟩
  · rw [exec_message, Option.map_eq_some_iff] at h ⊢
    obtain ⟨v, hv, hq⟩ := h
    exact ⟨v, processCommandPacket_mono hab hv, hq⟩

/-- The runs of the step system are its executions with enough fuel. -/
theorem run_iff_exec {s s' : State cfg} {tr : List (State cfg × Label cfg)} :
    Run AnyStep s tr s' ↔
      ∃ fuel, runAll (exec fuel) s (tr.map fun p => Label.call p.2) = some (tr, s') :=
  run_iff_runAll exec Label.call exec_mono exec_call

theorem run_of_exec {fuel : ℕ} {s s' : State cfg} {ks : List (Services cfg × Input cfg)}
    {tr : List (State cfg × Label cfg)} (h : runAll (exec fuel) s ks = some (tr, s')) :
    Run AnyStep s tr s' ∧ (tr.map fun p => Label.call p.2) = ks := by
  refine runAll_run ?_ h
  intro s k l s' he
  have hk := exec_call he
  exact ⟨⟨fuel, by rw [show (l.services, l.input) = k from hk]; exact he⟩, hk⟩

theorem initTable_mono {r : Resolver} {calls : InitCalls cfg} {a b : ℕ} (hab : a ≤ b)
    {x y : InitState cfg} {t : TblIndex cfg} (h : initTable r calls a x t = some y) :
    initTable r calls b x t = some y := by
  have recover : ∀ z v : InitState cfg, recoverTable r calls a t z = some v →
      recoverTable r calls b t z = some v := by
    intro z v hv
    simp only [recoverTable] at hv ⊢
    split_ifs at hv ⊢
    · exact hv
    · rw [Option.map_eq_some_iff] at hv ⊢
      obtain ⟨s, hs, rfl⟩ := hv
      exact ⟨s, copyAndStart_mono hab hs, rfl⟩
    · exact hv
  simp only [initTable] at h ⊢
  split_ifs at h ⊢
  · exact h
  · exact h
  · exact h
  · rw [Option.map_eq_some_iff] at h ⊢
    obtain ⟨z, hz, rfl⟩ := h
    refine ⟨z, ?_, rfl⟩
    simp only [registerTable] at hz ⊢
    split at hz
    · exact recover _ _ hz
    · exact hz
    · exact hz
    · exact hz

theorem appInit_mono {r : Resolver} {calls : AppInitCalls cfg} {a b : ℕ} (hab : a ≤ b)
    {s : State cfg} {q : CFEStatus × State cfg} (h : appInit r calls a s = some q) :
    appInit r calls b s = some q := by
  simp only [appInit] at h ⊢
  split_ifs at h ⊢
  · exact h
  · exact h
  · rw [Option.map_eq_some_iff] at h ⊢
    obtain ⟨v, hv, hq⟩ := h
    refine ⟨v, ?_, hq⟩
    rw [initTableServices, Option.map_eq_some_iff] at hv ⊢
    obtain ⟨x, hx, hv⟩ := hv
    exact ⟨x, foldlM_mono (fun _ _ _ => initTable_mono hab) hx, hv⟩

/-! ## Initialization -/

def firstFailure (answers : List CFEStatus) : CFEStatus :=
  (answers.find? fun status => decide (status ≠ .success)).getD .success

theorem firstFailure_cons (status : CFEStatus) (answers : List CFEStatus) :
    firstFailure (status :: answers) =
      if status = .success then firstFailure answers else status := by
  rw [firstFailure, List.find?_cons]
  split_ifs with h <;> simp [h, firstFailure]

theorem firstFailure_append (l l' : List CFEStatus) :
    firstFailure (l ++ l') =
      if firstFailure l = .success then firstFailure l' else firstFailure l := by
  induction l with
  | nil => rfl
  | cons status l ih =>
    rw [List.cons_append, firstFailure_cons, firstFailure_cons, ih]
    split_ifs <;> rfl

theorem firstFailure_success {l : List CFEStatus} :
    firstFailure l = .success ↔ ∀ status ∈ l, status = .success := by
  induction l with
  | nil => exact iff_of_true rfl (by simp)
  | cons status l ih =>
    rw [firstFailure_cons, List.forall_mem_cons]
    split_ifs with h
    · simp [h, ih]
    · simp [h]

def busAnswers (calls : SoftwareBusCalls) : List CFEStatus :=
  [calls.createPipe, calls.subscribeSendHk, calls.subscribeCmd, calls.subscribeWakeup]

/-- What a table answers in the end. -/
def tableAnswer (r : Resolver) (calls : InitCalls cfg) (t : TblIndex cfg) : CFEStatus :=
  match outcome r calls t with
  | .recovered | .loaded => .success
  | .failed status => status

def tableAnswers (r : Resolver) (calls : InitCalls cfg) : List CFEStatus :=
  (List.finRange cfg.numDwellTables).map (tableAnswer r calls)

theorem initSoftwareBusServices_status (calls : SoftwareBusCalls) (s : State cfg) :
    (initSoftwareBusServices calls s).1 = firstFailure (busAnswers calls) ∧
    ((initSoftwareBusServices calls s).1 = .success →
      (initSoftwareBusServices calls s).2 =
        (initSoftwareBusServices ⟨.success, .success, .success, .success⟩ s).2) ∧
    (∀ t, (initSoftwareBusServices calls s).2.dwellTables t = s.dwellTables t) ∧
    ∀ t, (initSoftwareBusServices calls s).2.tblBuffer t = s.tblBuffer t := by
  simp only [busAnswers, firstFailure_cons, initSoftwareBusServices]
  split_ifs <;> simp_all [firstFailure]

/-- All answers that decide MD_AppInit, in the order of the calls. -/
def initAnswers (r : Resolver) (calls : AppInitCalls cfg) : List CFEStatus :=
  calls.evsRegister :: busAnswers calls.toSoftwareBusCalls ++
    (tableAnswers r calls.toInitCalls ++ [calls.sendInitEvent])

/-- Those that come before the calls for table `t`. -/
def answersBefore (r : Resolver) (calls : AppInitCalls cfg) (t : TblIndex cfg) :
    List CFEStatus :=
  calls.evsRegister :: busAnswers calls.toSoftwareBusCalls ++
    ((List.finRange cfg.numDwellTables).filter (· < t)).map (tableAnswer r calls.toInitCalls)

theorem tableAnswer_success {r : Resolver} {calls : InitCalls cfg} {t : TblIndex cfg} :
    tableAnswer r calls t = .success ↔ Served r calls t := by
  rw [tableAnswer, Served]
  cases ho : outcome r calls t with
  | recovered => simp
  | loaded => simp
  | failed status => simpa using failed_ne_success ho

theorem tableAnswers_first {r : Resolver} {calls : InitCalls cfg} {t : TblIndex cfg}
    {status : CFEStatus} (hprev : ∀ u < t, Served r calls u)
    (ho : outcome r calls t = .failed status) : firstFailure (tableAnswers r calls) = status := by
  have hne : status ≠ .success := failed_ne_success ho
  have ht : tableAnswer r calls t = status := by rw [tableAnswer, ho]
  rw [firstFailure, tableAnswers, List.find?_map]
  have hfind : (List.finRange cfg.numDwellTables).find?
      ((fun status => decide (status ≠ .success)) ∘ tableAnswer r calls) = some t := by
    rw [List.find?_eq_some_iff_append]
    refine ⟨by simpa [ht] using hne, ?_⟩
    obtain ⟨before, after, hl⟩ := List.append_of_mem (List.mem_finRange t)
    refine ⟨before, after, hl, fun u hu => ?_⟩
    have hsorted := List.pairwise_lt_finRange cfg.numDwellTables
    rw [hl, List.pairwise_append] at hsorted
    have hut : u < t := hsorted.2.2 u hu t List.mem_cons_self
    simpa using tableAnswer_success.mpr (hprev u hut)
  rw [hfind]
  exact ht

theorem answersBefore_served {r : Resolver} {calls : AppInitCalls cfg} {t : TblIndex cfg}
    (h : firstFailure (answersBefore r calls t) ≠ .success)
    (he : calls.evsRegister = .success)
    (hb : firstFailure (busAnswers calls.toSoftwareBusCalls) = .success) :
    ∃ u < t, ¬ Served r calls.toInitCalls u := by
  by_contra hno
  push Not at hno
  apply h
  rw [firstFailure_success] at hb ⊢
  intro status hs
  simp only [answersBefore, List.cons_append, List.mem_cons, List.mem_append, List.mem_map,
    List.mem_filter, decide_eq_true_eq] at hs
  rcases hs with rfl | hs | ⟨u, ⟨-, hu⟩, rfl⟩
  · exact he
  · exact hb _ hs
  · exact tableAnswer_success.mpr (hno u hu)

theorem initTableServices_answers (hn : cfg.dwellTableSize ≤ 255) (r : Resolver)
    (calls : InitCalls cfg) (s : State cfg) :
    ∃ s', (∀ fuel, cfg.dwellTableSize < fuel → initTableServices r calls fuel s =
        some (firstFailure (tableAnswers r calls), s')) ∧
      ∀ t, (∃ u < t, ¬ Served r calls u) → stream s' t = stream s t := by
  obtain ⟨y, hy, hd⟩ := initTables_done (r := r) (x := ⟨s, .success, true, true, 0, 0⟩)
    (List.pairwise_lt_finRange cfg.numDwellTables) (fun _ _ _ _ => hn) rfl
  refine ⟨y.state.sendEvent (.tblInitInf y.tblRecos y.tblInits), ?_, ?_⟩
  · intro fuel hf
    rw [initTableServices, hy fuel hf, Option.map_some]
    congr 2
    cases hflag : y.tableInitValidFlag with
    | true =>
      have hall := hd.flag.mp hflag
      rw [if_pos rfl, eq_comm, firstFailure_success, tableAnswers, List.forall_mem_map]
      exact fun t ht => tableAnswer_success.mpr (hall t ht)
    | false =>
      obtain ⟨t, -, hprev, ho, -⟩ := hd.failed hflag
      rw [if_neg (by simp), tableAnswers_first (fun u => hprev u (List.mem_finRange u)) ho]
  · rintro t ⟨u, hut, hu⟩
    have hflag : y.tableInitValidFlag = false := by
      by_contra hf
      exact hu (hd.flag.mp (by simpa using hf) u (List.mem_finRange u))
    obtain ⟨v, -, hprev, -, hlater⟩ := hd.failed hflag
    have hvu : v ≤ u := by
      by_contra hlt
      exact hu (hprev u (List.mem_finRange u) (lt_of_not_ge hlt))
    exact hlater t (List.mem_finRange t) (hvu.trans_lt hut)

/-- MD_AppInit returns the first answer that is not a success, and a table is not touched
once a call before its own has failed. -/
theorem init_returns_first_failure (hn : cfg.dwellTableSize ≤ 255) (r : Resolver)
    (calls : AppInitCalls cfg) (raw : State cfg) :
    ∃ s, (∀ fuel, cfg.dwellTableSize < fuel →
        appInit r calls fuel raw = some (firstFailure (initAnswers r calls), s)) ∧
      ∀ t, firstFailure (answersBefore r calls t) ≠ .success →
        s.dwellTables t = initialControl cfg ∧ s.tblBuffer t = raw.tblBuffer t := by
  obtain ⟨hbus, hprep, hblank, hbuf⟩ :=
    initSoftwareBusServices_status calls.toSoftwareBusCalls (initCounters raw)
  simp only [initAnswers, List.cons_append, firstFailure_cons, firstFailure_append, appInit]
  by_cases he : calls.evsRegister = .success
  · by_cases hb : firstFailure (busAnswers calls.toSoftwareBusCalls) = .success
    · obtain ⟨s, hs, hkeep⟩ := initTableServices_answers hn r calls.toInitCalls (prepared raw)
      have hrun : (initSoftwareBusServices calls.toSoftwareBusCalls (initCounters raw)).2 =
          prepared raw := hprep (hbus.trans hb)
      have hlate : ∀ t, firstFailure (answersBefore r calls t) ≠ .success →
          s.dwellTables t = initialControl cfg ∧ s.tblBuffer t = raw.tblBuffer t := by
        intro t ht
        have hst := hkeep t (answersBefore_served ht he hb)
        exact ⟨congrArg Stream.control hst, congrArg Stream.buffer hst⟩
      by_cases ht : firstFailure (tableAnswers r calls.toInitCalls) = .success
      · refine ⟨s.sendEvent .initInf, fun fuel hf => ?_, hlate⟩
        simp [he, hbus, hb, hrun, hs fuel hf, ht]
        exact fun hsend => hsend
      · refine ⟨s, fun fuel hf => ?_, hlate⟩
        simp [he, hbus, hb, hrun, hs fuel hf, ht]
    · refine ⟨_, fun fuel _ => ?_, fun t _ => ⟨hblank t, hbuf t⟩⟩
      simp [he, hbus, hb]
  · refine ⟨initCounters raw, fun fuel _ => ?_, fun t _ => ⟨rfl, rfl⟩⟩
    simp [he]

theorem init_returns_first_failure_bus :
    let calls : AppInitCalls threeEntries := {
      toSoftwareBusCalls := ⟨.success, .success, .success, .error 7⟩
      toInitCalls := recoverAll (loadTable threeEntries dwellEnabled [])
      evsRegister := .success
      sendInitEvent := .success }
    ∃ s, (∀ fuel, 3 < fuel →
        appInit flatMemory.resolver calls fuel (blankState _) = some (.error 7, s)) ∧
      s.dwellTables 0 = initialControl threeEntries := by
  intro calls
  obtain ⟨s, hs, ht⟩ := init_returns_first_failure (by decide) flatMemory.resolver calls
    (blankState threeEntries)
  exact ⟨s, hs, (ht 0 (by decide)).1⟩

/-- A successful MD_AppInit has started the tables, and said so. -/
theorem appInit_started {r : Resolver} {calls : AppInitCalls cfg} {fuel : ℕ} {raw s : State cfg}
    (h : appInit r calls fuel raw = some (.success, s)) :
    ∃ s₀, Started r calls.toInitCalls s₀ ∧ s = s₀.sendEvent .initInf := by
  simp only [appInit] at h
  split_ifs at h with he hb
  · simp only [Option.some.injEq, Prod.mk.injEq] at h
    exact absurd h.1 he
  · simp only [Option.some.injEq, Prod.mk.injEq] at h
    exact absurd h.1 hb
  · rw [Option.map_eq_some_iff] at h
    obtain ⟨⟨status, s₀⟩, hs, h⟩ := h
    rw [(initSoftwareBusServices_status _ _).2.1 (not_not.mp hb)] at hs
    simp only at h
    split_ifs at h with hst
    · simp only [Prod.mk.injEq] at h
      exact ⟨s₀, ⟨raw, fuel, hst ▸ hs⟩, h.2.symm⟩
    · simp only [Prod.mk.injEq] at h
      exact absurd h.1 hst

/-- A property of runs that does not look into the log. -/
def IgnoresLog (Q : List (State cfg × Label cfg) → State cfg → Prop) : Prop :=
  ∀ tr tr' s s', Along Unlogged tr tr' → Unlogged s s' → Q tr' s' → Q tr s

theorem ignoresLog_everyState {Q : State cfg → Prop} (hq : ∀ s s', Unlogged s s' → Q s' → Q s) :
    IgnoresLog (EveryState Q) := fun _ _ _ _ along h => along.everyState hq h

/-- Behind a successful MD_AppInit all runs have what the runs behind a successful table
initialization have: the main loop starts from there, but for the event that says so. -/
theorem runs_inherit {r : Resolver} {calls : AppInitCalls cfg} {raw s₁ : State cfg}
    (hi : ∃ fuel, appInit r calls fuel raw = some (.success, s₁))
    {Q : List (State cfg × Label cfg) → State cfg → Prop} (hq : IgnoresLog Q)
    (started : ∀ s₀ tr s, Started r calls.toInitCalls s₀ → Run AnyStep s₀ tr s → Q tr s)
    {tr : List (State cfg × Label cfg)} {s : State cfg} (run : Run AnyStep s₁ tr s) : Q tr s := by
  obtain ⟨fuel, h⟩ := hi
  obtain ⟨s₀, h₀, rfl⟩ := appInit_started h
  have hlog : Unlogged (s₀.sendEvent .initInf) s₀ := ⟨s₀.events, rfl⟩
  obtain ⟨tr', s', run', along, hs⟩ := run_unlogged hlog run
  exact hq _ _ _ _ along hs (started s₀ tr' s' h₀ run')

/-! ## A small platform -/

namespace Platform

def config : Config := threeEntries

def tbl : DwellTableLoad config := loadTable config dwellEnabled [loadEntry config 4 2 8]

def calls : AppInitCalls config where
  toSoftwareBusCalls := ⟨.success, .success, .success, .success⟩
  toInitCalls := recoverAll tbl
  evsRegister := .success
  sendInitEvent := .success

/-- One update is pending when a round begins. -/
def updateCalls : ManageCalls config ℕ where
  getStatus w := (if w = 0 then .tblInfoUpdatePending else .success, w)
  validate w := (.success, w)
  update w := (.success, w + 1)
  getAddress w := (.tblInfoUpdated, w)
  loaded _ := tbl

def round (received : CFEStatus) : Round config where
  runLoop status := (decide (status = .appRun), status)
  tblServices _ := smallServices config .success
  manage _ := updateCalls
  received := received
  bufPtr := some (blankMsg config .wakeup 0 (bareMsgLength config))
  services := smallServices config .success

theorem init_succeeds :
    ∃ s, appInit flatMemory.resolver calls 9 (blankState config) = some (.success, s) := by
  have h : (appInit flatMemory.resolver calls 9 (blankState config)).any
      (fun q => decide (q.1 = .success)) = true := by decide +kernel
  obtain ⟨⟨status, s⟩, hq, hs⟩ := (Option.any_eq_true _ _).mp h
  obtain rfl : status = .success := of_decide_eq_true hs
  exact ⟨s, hq⟩

theorem main_returns (rounds : List (Round config))
    (h : (appMain flatMemory.resolver calls 9 rounds (blankState config)).isSome = true) :
    ∃ q, appMain flatMemory.resolver calls 9 rounds (blankState config) = some q :=
  Option.isSome_iff_exists.mp h

end Platform

/-! ## The whole application -/

section Application

variable {r : Resolver} {calls : AppInitCalls cfg} {raw : State cfg} {rounds : List (Round cfg)}

structure Rounds (runStatus : RunStatus) (rounds : List (Round cfg)) (s : State cfg)
    (tr : List (State cfg × Label cfg)) (s' : State cfg) (acts : List (Action cfg)) : Prop where
  run : Run AnyStep s tr s'
  inputs : (tr.map fun p => Label.call p.2) = (taken runStatus rounds).flatMap roundInputs
  actions : acts = tr.flatMap fun p => p.2.actions

theorem rounds_of_mainLoop {fuel : ℕ} {m : Main cfg} {q : Main cfg × Bool}
    (h : mainLoop fuel rounds m = some q) :
    ∃ tr acts, Rounds m.runStatus rounds m.state tr q.1.state acts ∧
      q.1.actions = m.actions ++ acts := by
  have he := mainLoop_runAll fuel m rounds
  rw [h, Option.map_some, Option.map_some, eq_comm, Option.map_eq_some_iff] at he
  obtain ⟨⟨tr, s'⟩, hrun, hout⟩ := he
  simp only [outcomeOf, Main.visible, Prod.mk.injEq] at hout
  obtain ⟨rfl, hacts⟩ := hout
  obtain ⟨hrun, hcalls⟩ := run_of_exec hrun
  exact ⟨tr, _, ⟨hrun, hcalls, rfl⟩, hacts.symm⟩

theorem mainLoop_of_rounds {m : Main cfg} {tr : List (State cfg × Label cfg)} {s : State cfg}
    {acts : List (Action cfg)} (h : Rounds m.runStatus rounds m.state tr s acts) :
    ∃ n, ∀ fuel, n ≤ fuel → ∃ q, mainLoop fuel rounds m = some q ∧
      q.1.visible = (s, m.actions ++ acts) := by
  obtain ⟨hrun, hcalls, rfl⟩ := h
  obtain ⟨n, hr⟩ := run_iff_exec.mp hrun
  refine ⟨n, fun fuel hn => ?_⟩
  have he := mainLoop_runAll fuel m rounds
  rw [← hcalls, runAll_mono (exec_mono hn) hr, Option.map_some, Option.map_eq_some_iff] at he
  obtain ⟨m', hm, hv⟩ := he
  rw [Option.map_eq_some_iff] at hm
  obtain ⟨q, hq, rfl⟩ := hm
  exact ⟨q, hq, hv⟩

theorem appMain_started {fuel : ℕ} {s : State cfg}
    (h : appInit r calls fuel raw = some (.success, s)) :
    appMain r calls fuel rounds raw = mainLoop fuel rounds ⟨s, .appRun, [], []⟩ := by
  simp [appMain, h]

/-- Behind a successful MD_AppInit, MD_AppMain makes exactly the runs of steps whose inputs
are, in each round that the executive and the pipe let it take, every table in its turn
and then the message, if one came: it returns from them if and only if all steps end. What
holds of every run behind table initialization holds of these runs. -/
theorem main_refines {s₁ : State cfg}
    (hi : ∃ fuel, appInit r calls fuel raw = some (.success, s₁)) (rounds : List (Round cfg))
    (s : State cfg) (acts : List (Action cfg)) :
    (∃ s₀, Started r calls.toInitCalls s₀ ∧ s₁ = s₀.sendEvent .initInf) ∧
    ((∃ fuel q, appMain r calls fuel rounds raw = some q ∧ q.1.visible = (s, acts)) ↔
      ∃ tr, Run AnyStep s₁ tr s ∧ (tr.map fun p => Label.call p.2) =
          (taken .appRun rounds).flatMap roundInputs ∧
        acts = tr.flatMap fun p => p.2.actions) ∧
    ∀ Q, IgnoresLog Q →
      (∀ s₀ tr s, Started r calls.toInitCalls s₀ → Run AnyStep s₀ tr s → Q tr s) →
      ∀ tr s, Run AnyStep s₁ tr s → Q tr s := by
  obtain ⟨a, ha⟩ := hi
  refine ⟨appInit_started ha, ?_, fun _ hq h _ _ run => runs_inherit ⟨a, ha⟩ hq h run⟩
  constructor
  · rintro ⟨fuel, q, hq, hv⟩
    cases hb : appInit r calls fuel raw with
    | none =>
      rw [appMain, hb] at hq
      cases hq
    | some v =>
      have hmax := appInit_mono (Nat.le_max_left a fuel) ha
      rw [appInit_mono (Nat.le_max_right a fuel) hb] at hmax
      cases hmax
      rw [appMain_started hb] at hq
      obtain ⟨tr, acts', ⟨hrun, hcalls, rfl⟩, hacts⟩ := rounds_of_mainLoop hq
      simp only [Main.visible, Prod.mk.injEq] at hv
      exact ⟨tr, hv.1 ▸ hrun, hcalls, hv.2.symm.trans hacts⟩
  · rintro ⟨tr, hrun, hcalls, hacts⟩
    obtain ⟨n, hn⟩ := mainLoop_of_rounds (m := ⟨s₁, .appRun, [], []⟩) ⟨hrun, hcalls, hacts⟩
    obtain ⟨q, hq, hv⟩ := hn (max a n) (Nat.le_max_right a n)
    refine ⟨max a n, q, ?_, hv⟩
    rw [appMain_started (appInit_mono (Nat.le_max_left a n) ha)]
    exact hq

theorem main_refines_update :
    ∃ s₁ s₀ q tr, Started flatMemory.resolver (recoverAll Platform.tbl) s₀ ∧
      s₁ = s₀.sendEvent .initInf ∧
      appMain flatMemory.resolver Platform.calls 9 [Platform.round .success]
        (blankState Platform.config) = some q ∧
      Run AnyStep s₁ tr q.1.state ∧
      (tr.map fun p => Label.call p.2) =
        (taken .appRun [Platform.round .success]).flatMap roundInputs ∧
      q.1.actions = tr.flatMap fun p => p.2.actions := by
  obtain ⟨s₁, hi⟩ := Platform.init_succeeds
  obtain ⟨q, hq⟩ := Platform.main_returns [Platform.round .success] (by decide +kernel)
  obtain ⟨⟨s₀, hs, rfl⟩, hiff, -⟩ := main_refines ⟨9, hi⟩ [Platform.round .success] q.1.state
    q.1.actions
  obtain ⟨tr, hrun, hin, hacts⟩ := hiff.mp ⟨9, q, hq, rfl⟩
  exact ⟨_, s₀, q, tr, hs, rfl, hq, hrun, hin, hacts⟩

/-! ## Errors end the application -/

/-- CFE_ES_RunLoop as documented: it lets an application go on only as long as that asks
to run, and then leaves its status alone. -/
def RunLoopDocumented (round : Round cfg) : Prop :=
  ∀ status, (round.runLoop status).1 = true →
    status = .appRun ∧ (round.runLoop status).2 = .appRun

theorem Platform.round_documented (received : CFEStatus) :
    RunLoopDocumented (Platform.round received) := by
  intro status h
  simp only [Platform.round, decide_eq_true_eq] at h ⊢
  exact ⟨h, h⟩

def PipeOk (round : Round cfg) : Prop :=
  round.received = sbTimeOut ∨ round.received = .success

theorem reportsOf_ok {round : Round cfg} (h : PipeOk round) : reportsOf round = [] := by
  rw [reportsOf, if_neg]
  rintro ⟨h1, h2⟩
  exact h.elim h1 h2

theorem statusAfter_ok {round : Round cfg} (h : PipeOk round) (status : RunStatus) :
    statusAfter round status = status := by
  rw [statusAfter, if_neg]
  rintro ⟨h1, h2⟩
  exact h.elim h1 h2

theorem statusAfter_error {round : Round cfg} (h : ¬ PipeOk round) (status : RunStatus) :
    statusAfter round status = .appError := if_pos (not_or.mp h)

theorem taken_error (hd : ∀ round ∈ rounds, RunLoopDocumented round) {status : RunStatus}
    (hs : status ≠ .appRun) : taken status rounds = [] := by
  cases rounds with
  | nil => rfl
  | cons round rounds =>
    rw [taken, if_neg]
    intro hgo
    exact hs (hd round List.mem_cons_self status hgo).1

theorem mainLoop_error (hd : ∀ round ∈ rounds, RunLoopDocumented round) {fuel : ℕ} {m : Main cfg}
    {q : Main cfg × Bool} (hs : m.runStatus ≠ .appRun) (h : mainLoop fuel rounds m = some q) :
    q.1.visible = m.visible ∧ q.1.reports = m.reports ∧
      (q.2 = false → q.1.runStatus = m.runStatus) ∧
      (q.2 = true → ∃ round ∈ rounds, q.1.runStatus = (round.runLoop m.runStatus).2) ∧
      (q.2 = true ↔ rounds ≠ []) := by
  cases rounds with
  | nil =>
    cases h
    exact ⟨rfl, rfl, fun _ => rfl, by simp, by simp⟩
  | cons round rounds =>
    have hstop : ¬(round.runLoop m.runStatus).1 = true := fun hgo =>
      hs (hd round List.mem_cons_self _ hgo).1
    rw [mainLoop_cons, if_neg hstop] at h
    cases h
    exact ⟨rfl, rfl, by simp, fun _ => ⟨round, List.mem_cons_self, rfl⟩, by simp⟩

/-- The last of the rounds taken met an error on the pipe, and those before it did not. -/
structure PipeFailed (rounds : List (Round cfg)) (status : CFEStatus) : Prop where
  failed : ∃ earlier last, taken .appRun rounds = earlier ++ [last] ∧ last.received = status ∧
    ¬ PipeOk last ∧ ∀ round ∈ earlier, PipeOk round

theorem PipeFailed.cons {round : Round cfg} {status : CFEStatus} (h : PipeFailed rounds status)
    (hgo : (round.runLoop .appRun).1 = true) (hs : (round.runLoop .appRun).2 = .appRun)
    (hok : PipeOk round) : PipeFailed (round :: rounds) status := by
  obtain ⟨earlier, last, ht, hl, hf, he⟩ := h
  refine ⟨round :: earlier, last, ?_, hl, hf, List.forall_mem_cons.mpr ⟨hok, he⟩⟩
  rw [taken, if_pos hgo, hs, statusAfter_ok hok, ht, List.cons_append]

theorem mainLoop_reports (hd : ∀ round ∈ rounds, RunLoopDocumented round) {fuel : ℕ}
    {m : Main cfg} {q : Main cfg × Bool} (hs : m.runStatus = .appRun)
    (h : mainLoop fuel rounds m = some q) :
    (q.1.reports = m.reports ∧ ∀ round ∈ taken .appRun rounds, PipeOk round) ∨
    ∃ status, q.1.reports = m.reports ++ [.pipeErr status] ∧ PipeFailed rounds status ∧
      (q.2 = false → q.1.runStatus = .appError) ∧
      (q.2 = true → ∃ round ∈ rounds, q.1.runStatus = (round.runLoop .appError).2) := by
  induction rounds generalizing m with
  | nil =>
    cases h
    exact Or.inl ⟨rfl, by simp [taken]⟩
  | cons round rounds ih =>
    rw [mainLoop_cons, hs] at h
    split_ifs at h with hgo
    · obtain ⟨-, hrun⟩ := hd round List.mem_cons_self _ hgo
      have hd := fun x hx => hd x (List.mem_cons_of_mem round hx)
      rw [Option.bind_eq_some_iff] at h
      obtain ⟨v, hv, h⟩ := h
      obtain ⟨hvs, hvr⟩ := mainTurn_rest hv
      by_cases hok : PipeOk round
      · rw [statusAfter_ok hok, hrun] at hvs
        rw [reportsOf_ok hok, List.append_nil] at hvr
        rcases ih hd hvs h with ⟨hr, hall⟩ | ⟨status, hr, hf, hout, hend⟩
        · refine Or.inl ⟨hr.trans hvr, ?_⟩
          rw [taken, if_pos hgo, hrun, statusAfter_ok hok]
          exact List.forall_mem_cons.mpr ⟨hok, hall⟩
        · refine Or.inr ⟨status, by rw [hr, hvr], hf.cons hgo hrun hok, hout, fun he => ?_⟩
          obtain ⟨x, hx, hxs⟩ := hend he
          exact ⟨x, List.mem_cons_of_mem round hx, hxs⟩
      · rw [statusAfter_error hok] at hvs
        have hne : v.runStatus ≠ .appRun := by simp [hvs]
        obtain ⟨-, hr, hout, hend, -⟩ := mainLoop_error hd hne h
        rw [hvs] at hout hend
        refine Or.inr ⟨round.received, ?_, ⟨[], round, ?_, rfl, hok, by simp⟩, hout,
          fun he => ?_⟩
        · rw [hr, hvr, reportsOf, if_pos (not_or.mp hok)]
        · rw [taken, if_pos hgo, statusAfter_error hok, taken_error hd (by simp), List.nil_append]
        · obtain ⟨x, hx, hxs⟩ := hend he
          exact ⟨x, List.mem_cons_of_mem round hx, hxs⟩
    · cases h
      refine Or.inl ⟨rfl, ?_⟩
      rw [taken, if_neg hgo]
      simp

/-- The loop was left with the executive's answer to APP_ERROR, or will be. -/
def EndsInError (rounds : List (Round cfg)) (q : Main cfg × Bool) : Prop :=
  (q.2 = false → q.1.runStatus = .appError) ∧
    (q.2 = true → ∃ round ∈ rounds, q.1.runStatus = (round.runLoop .appError).2)

/-- An initialization that fails is reported, and no table is managed and no message
handled behind it. An error on the pipe is reported once, in the last round that is
taken. Both end the application with APP_ERROR, and nothing else is ever reported. -/
theorem errors_end_main (hd : ∀ round ∈ rounds, RunLoopDocumented round) {fuel : ℕ}
    {q : Main cfg × Bool} (h : appMain r calls fuel rounds raw = some q) :
    (∃ status s, appInit r calls fuel raw = some (status, s) ∧ status ≠ .success ∧
      q.1.visible = (s, []) ∧ q.1.reports = [.initFailed status] ∧ EndsInError rounds q) ∨
    ∃ s, appInit r calls fuel raw = some (.success, s) ∧
      ((q.1.reports = [] ∧ ∀ round ∈ taken .appRun rounds, PipeOk round) ∨
        ∃ status, q.1.reports = [.pipeErr status] ∧ PipeFailed rounds status ∧
          EndsInError rounds q) := by
  cases hi : appInit r calls fuel raw with
  | none =>
    rw [appMain, hi] at h
    cases h
  | some v =>
    obtain ⟨status, s⟩ := v
    by_cases hs : status = .success
    · subst hs
      rw [appMain_started hi] at h
      refine Or.inr ⟨s, rfl, ?_⟩
      rcases mainLoop_reports hd rfl h with hok | ⟨status, hr, hf, hout, hend⟩
      · exact Or.inl hok
      · exact Or.inr ⟨status, hr, hf, hout, hend⟩
    · simp only [appMain, hi, Option.bind_some, ne_eq, hs, not_false_iff, if_true] at h
      obtain ⟨hv, hr, hout, hend, -⟩ := mainLoop_error hd (by simp) h
      exact Or.inl ⟨status, s, rfl, hs, hv, hr, hout, hend⟩

theorem errors_end_main_pipe :
    ∃ q status, appMain flatMemory.resolver Platform.calls 9
        [Platform.round .success, Platform.round (.error 5), Platform.round .success]
        (blankState Platform.config) = some q ∧
      q.1.reports = [.pipeErr status] ∧
      PipeFailed [Platform.round .success, Platform.round (.error 5), Platform.round .success]
        status ∧
      EndsInError [Platform.round .success, Platform.round (.error 5), Platform.round .success]
        q := by
  obtain ⟨q, hq⟩ := Platform.main_returns
    [Platform.round .success, Platform.round (.error 5), Platform.round .success]
    (by decide +kernel)
  have hd : ∀ round ∈ [Platform.round .success, Platform.round (.error 5),
      Platform.round .success], RunLoopDocumented round := by
    simp [Platform.round_documented]
  obtain ⟨s, hs⟩ := Platform.init_succeeds
  rcases errors_end_main hd hq with ⟨status, s', hi, hne, -⟩ | ⟨s', -, hok | ⟨status, hr, hf, he⟩⟩
  · rw [hs] at hi
    cases hi
    exact absurd rfl hne
  · have hbad := hok.2 (Platform.round (.error 5))
      (by simp [taken, Platform.round, statusAfter, sbTimeOut])
    simp [PipeOk, Platform.round, sbTimeOut] at hbad
  · exact ⟨q, status, hq, hr, hf, he⟩

/-! ## Messages come behind the tables -/

theorem flatMap_split {α β : Type*} {f : α → List β} {xs : List α} {before after : List β} {k : β}
    (h : xs.flatMap f = before ++ k :: after) :
    ∃ x ∈ xs, ∃ earlier b a, f x = b ++ k :: a ∧ before = earlier ++ b := by
  induction xs generalizing before with
  | nil => simp at h
  | cons x xs ih =>
    rw [List.flatMap_cons, List.append_eq_append_iff] at h
    rcases h with ⟨b, rfl, hrest⟩ | ⟨b, hx, hrest⟩
    · obtain ⟨y, hy, earlier, b', a, hf, rfl⟩ := ih hrest
      exact ⟨y, List.mem_cons_of_mem x hy, f x ++ earlier, b', a, hf, by rw [List.append_assoc]⟩
    · cases b with
      | nil =>
        rw [List.nil_append] at hrest
        have h0 : xs.flatMap f = [] ++ k :: after := hrest.symm
        obtain ⟨y, hy, earlier, b', a, hf, he⟩ := ih h0
        have hb : b' = [] := (List.append_eq_nil_iff.mp he.symm).2
        refine ⟨y, List.mem_cons_of_mem x hy, before, b', a, hf, ?_⟩
        rw [hb, List.append_nil]
      | cons k' b =>
        rw [List.cons_append, List.cons.injEq] at hrest
        exact ⟨x, List.mem_cons_self, [], before, b, by rw [hx, hrest.1], rfl⟩

/-- What a round makes of a stream before its message: what was installed is there. -/
def ManagedIn (round : Round cfg) (managed : List (State cfg × Label cfg)) (t : TblIndex cfg)
    (x y : Stream cfg) : Prop :=
  ∃ p ∈ managed, p.2.input = .manage t (round.manage t) ∧
    ((p.2.actions = [] ∧ y = x) ∨
      ∃ tbl copied, p.2.actions = [.install t tbl copied] ∧
        Updates (round.manage t) tbl copied ∧
        y = install (round.tblServices t).toResolver tbl copied x)

theorem ManagedIn.append {round : Round cfg} {managed more : List (State cfg × Label cfg)}
    {t : TblIndex cfg} {x y : Stream cfg} (h : ManagedIn round managed t x y) :
    ManagedIn round (managed ++ more) t x y := by
  obtain ⟨p, hp, h⟩ := h
  exact ⟨p, List.mem_append_left more hp, h⟩

/-- A pass over the tables of a list manages these, each once, and leaves the others. -/
theorem manage_run {round : Round cfg} {s s' : State cfg} {tr : List (State cfg × Label cfg)}
    (run : Run AnyStep s tr s') {l : List (TblIndex cfg)} (hl : l.Nodup)
    (hin : (tr.map fun p => Label.call p.2) = manageInputs round l) (t : TblIndex cfg) :
    (t ∈ l → ManagedIn round tr t (stream s t) (stream s' t)) ∧
      (t ∉ l → stream s' t = stream s t) := by
  induction run generalizing l with
  | nil =>
    obtain rfl : l = [] := by simpa [manageInputs] using hin.symm
    exact ⟨by simp, fun _ => rfl⟩
  | @snoc u v tr lab run st ih =>
    obtain ⟨l, i, rfl⟩ : ∃ l' i, l = l' ++ [i] := by
      rcases List.eq_nil_or_concat l with rfl | ⟨l', i, rfl⟩
      · simp [manageInputs] at hin
      · exact ⟨l', i, by simp⟩
    simp only [manageInputs, List.map_append, List.map_cons, List.map_nil] at hin
    obtain ⟨hin, hlast⟩ := List.append_inj' hin rfl
    rw [List.nodup_append] at hl
    obtain ⟨hmem, hother⟩ := ih hl.1 hin
    obtain ⟨fuel, he⟩ := st
    have hcall : (lab.services, lab.input) = (round.tblServices i, .manage i (round.manage i)) :=
      List.singleton_inj.mp hlast
    rw [hcall, exec_manage, Option.map_eq_some_iff] at he
    obtain ⟨m, hm, hq⟩ := he
    simp only [Prod.mk.injEq] at hq
    obtain ⟨rfl, rfl⟩ := hq
    have hi : i ∉ l := fun hi => hl.2.2 i hi i (by simp) rfl
    rcases manageLoop_cases hm with ⟨ha, hkeep⟩ | ⟨tbl, copied, ha, hup, -, hins⟩
    · refine ⟨fun ht => ?_, fun ht => ?_⟩
      · rw [hkeep]
        rcases List.mem_append.mp ht with ht | ht
        · exact (hmem ht).append
        · obtain rfl : t = i := by simpa using ht
          refine ⟨_, List.mem_append_right _ List.mem_cons_self, rfl, Or.inl ⟨ha, ?_⟩⟩
          exact hother hi
      · rw [hkeep]
        exact hother fun h => ht (List.mem_append_left _ h)
    · refine ⟨fun ht => ?_, fun ht => ?_⟩
      · rcases List.mem_append.mp ht with ht | ht
        · rw [hins, if_neg (fun h : t = i => hi (h ▸ ht))]
          exact (hmem ht).append
        · obtain rfl : t = i := by simpa using ht
          refine ⟨_, List.mem_append_right _ List.mem_cons_self, rfl,
            Or.inr ⟨tbl, copied, ha, hup, ?_⟩⟩
          rw [hins, if_pos rfl, hother hi]
      · rw [hins, if_neg fun h => ht (by simp [h])]
        exact hother fun h => ht (List.mem_append_left _ h)

theorem roundInputs_message {round : Round cfg} {svc : Services cfg}
    {bufPtr : Option (Message cfg)} {b a : List (Services cfg × Input cfg)}
    (h : roundInputs round = b ++ (svc, .message bufPtr) :: a) :
    b = manageInputs round (List.finRange _) ∧ svc = round.services ∧ bufPtr = round.bufPtr := by
  have only : ∀ as, messageInput round = as ++ (svc, .message bufPtr) :: a →
      as = [] ∧ svc = round.services ∧ bufPtr = round.bufPtr := by
    intro as has
    rw [messageInput] at has
    split_ifs at has
    · cases as with
      | nil =>
        cases has
        exact ⟨rfl, rfl, rfl⟩
      | cons k as => simp at has
    · simp at has
  rw [roundInputs, List.append_eq_append_iff] at h
  rcases h with ⟨as, rfl, hm⟩ | ⟨bs, hb, hm⟩
  · obtain ⟨rfl, hs⟩ := only as hm
    exact ⟨List.append_nil _, hs⟩
  · cases bs with
    | nil =>
      obtain ⟨-, hs⟩ := only [] hm.symm
      exact ⟨by rw [hb, List.append_nil], hs⟩
    | cons k bs =>
      rw [List.cons_append, List.cons.injEq] at hm
      have hk : (svc, .message bufPtr) ∈ manageInputs round (List.finRange _) := by
        rw [hb, hm.1]
        exact List.mem_append_right b List.mem_cons_self
      simp [manageInputs] at hk

/-- In every execution of MD_AppMain a message is handled behind a management of all
tables in the same round: what Table Services installed there is in the streams that the
handler works on, and nothing has come between. -/
theorem messages_find_tables_managed {fuel : ℕ} {s₁ : State cfg} {q : Main cfg × Bool}
    (hi : appInit r calls fuel raw = some (.success, s₁))
    (h : appMain r calls fuel rounds raw = some q) :
    ∃ tr, Run AnyStep s₁ tr q.1.state ∧
      (tr.map fun p => Label.call p.2) = (taken .appRun rounds).flatMap roundInputs ∧
      ∀ before u l after bufPtr, tr = before ++ (u, l) :: after → l.input = .message bufPtr →
        ∃ round ∈ taken .appRun rounds, ∃ earlier v managed, before = earlier ++ managed ∧
          l.services = round.services ∧ bufPtr = round.bufPtr ∧
          Run AnyStep s₁ earlier v ∧
          (managed.map fun p => Label.call p.2) = manageInputs round (List.finRange _) ∧
          ∀ t, ManagedIn round managed t (stream v t) (stream u t) := by
  rw [appMain_started hi] at h
  obtain ⟨tr, acts, ⟨hrun, hin, -⟩, -⟩ := rounds_of_mainLoop h
  refine ⟨tr, hrun, hin, ?_⟩
  rintro before u l after bufPtr rfl hl
  rw [List.map_append, List.map_cons] at hin
  obtain ⟨round, hround, ks, b, a, hf, hb⟩ := flatMap_split hin.symm
  rw [Label.call, hl] at hf
  obtain ⟨rfl, hsvc, hbuf⟩ := roundInputs_message hf
  obtain ⟨earlier, managed, rfl, -, hmanaged⟩ := List.map_eq_append_iff.mp hb
  obtain ⟨w, hbefore, hafter⟩ := hrun.split
  obtain rfl : u = w := hafter.head
  obtain ⟨v, hearlier, hv⟩ := hbefore.split
  refine ⟨round, hround, earlier, v, managed, rfl, hsvc, hbuf, hearlier, hmanaged, fun t => ?_⟩
  exact (manage_run hv (List.nodup_finRange _) hmanaged t).1 (List.mem_finRange t)

theorem messages_find_tables_managed_twice :
    ∃ s₁ q tr, appMain flatMemory.resolver Platform.calls 9
        [Platform.round sbTimeOut, Platform.round .success] (blankState Platform.config) = some q ∧
      Run AnyStep s₁ tr q.1.state ∧
      (tr.map fun p => Label.call p.2) =
        (taken .appRun [Platform.round sbTimeOut, Platform.round .success]).flatMap roundInputs ∧
      ∀ before u l after bufPtr, tr = before ++ (u, l) :: after → l.input = .message bufPtr →
        ∃ round ∈ taken .appRun [Platform.round sbTimeOut, Platform.round .success],
          ∃ earlier v managed, before = earlier ++ managed ∧
            l.services = round.services ∧ bufPtr = round.bufPtr ∧
            Run AnyStep s₁ earlier v ∧
            (managed.map fun p => Label.call p.2) = manageInputs round (List.finRange _) ∧
            ∀ t, ManagedIn round managed t (stream v t) (stream u t) := by
  obtain ⟨s₁, hi⟩ := Platform.init_succeeds
  obtain ⟨q, hq⟩ := Platform.main_returns [Platform.round sbTimeOut, Platform.round .success]
    (by decide +kernel)
  obtain ⟨tr, h⟩ := messages_find_tables_managed hi hq
  exact ⟨s₁, q, tr, hq, h⟩

end Application

end MainLoop
