import MemoryDwell.DwellTraces

/-! # The accounting of table initialization

MD_InitTableServices keeps one status for all calls and two flags for all tables. What
becomes of a table is said here from the answers to its own calls alone. -/
namespace InitAccounting

open DwellData DwellUtils DwellTbl DwellApp DwellStreams StreamInit DwellTraces

variable {cfg : Config}

inductive Outcome where
  | recovered
  | loaded
  | failed (status : CFEStatus)
  deriving DecidableEq, Repr

/-- What the answers to the calls for one table come to. -/
def outcome (r : Resolver) (calls : InitCalls cfg) (t : TblIndex cfg) : Outcome :=
  if calls.tableName t < 0 then .failed (.error (calls.tableName t))
  else if calls.tblFileName t < 0 then .failed (.error (calls.tblFileName t))
  else if Recovers r calls t then .recovered
  else if calls.register t = .success ∨ calls.register t = .tblInfoRecoveredTbl then
    if calls.load t = .success then .loaded else .failed (calls.load t)
  else .failed (calls.register t)

/-- The table was set up. -/
def Served (r : Resolver) (calls : InitCalls cfg) (t : TblIndex cfg) : Prop :=
  outcome r calls t = .recovered ∨ outcome r calls t = .loaded

instance (r : Resolver) (calls : InitCalls cfg) (t : TblIndex cfg) : Decidable (Served r calls t) :=
  inferInstanceAs (Decidable (_ ∨ _))

theorem failed_ne_success {r : Resolver} {calls : InitCalls cfg} {t : TblIndex cfg}
    {status : CFEStatus} (h : outcome r calls t = .failed status) : status ≠ .success := by
  rw [outcome] at h
  split_ifs at h with h1 h2 h3 h4 h5 <;> cases h
  · simp
  · simp
  · exact h5
  · exact fun hs => h4 (Or.inl hs)

theorem initialControl_info (cfg : Config) :
    updateDwellControlInfo (initialControl cfg) = initialControl cfg := by
  have hk : activeLength cfg (lengths (initialControl cfg)) = 0 := activeLength_eq_zero rfl
  rw [updateDwellControlInfo_eq, hk]
  rfl

section Turn

variable {r : Resolver} {calls : InitCalls cfg} {t : TblIndex cfg} {x : InitState cfg}

/-- What registration, with a recovery behind it, leaves for the rest of the turn. -/
structure Registered (r : Resolver) (calls : InitCalls cfg) (t : TblIndex cfg)
    (x z : InitState cfg) : Prop where
  flag : z.tableInitValidFlag =
    decide (calls.register t = .success ∨ calls.register t = .tblInfoRecoveredTbl)
  recovered : z.recoveredValidTable = decide (Recovers r calls t)
  status : z.status = calls.register t
  recos : z.tblRecos = x.tblRecos + if Recovers r calls t then 1 else 0
  inits : z.tblInits = x.tblInits
  others : ∀ u ≠ t, stream z.state u = stream x.state u
  own : ¬ Recovers r calls t → z.state.dwellTables t = x.state.dwellTables t

theorem recoverTable_turn (hx : x.tableInitValidFlag = true) (hv : x.recoveredValidTable = false)
    (hr : calls.register t = .tblInfoRecoveredTbl) (hs : x.status = calls.register t)
    (hN : Recovers r calls t → cfg.dwellTableSize ≤ 255) :
    ∃ z, (∀ fuel, cfg.dwellTableSize < fuel → recoverTable r calls fuel t x = some z) ∧
      Registered r calls t x z := by
  simp only [recoverTable, State.setBuffer_self]
  by_cases hg : calls.getAddress t = .tblInfoUpdated
  · by_cases ha : (tableValidationFunc r (some (calls.recovered t))).1 = .success
    · have hrec : Recovers r calls t := ⟨hr, hg, ha⟩
      simp only [hg, ha, ne_eq, not_true, if_false, if_true]
      refine ⟨_, fun fuel hf => by rw [copyAndStart_eq r (hN hrec) hf]; rfl, ?_⟩
      refine ⟨by simp [hx, hr], by simp [hrec], hs, by simp [hrec], rfl, ?_, fun h => absurd hrec h⟩
      intro u hu
      simp only [stream_sendEvent, stream_setTable, if_neg hu]
      simp [stream, State.setBuffer, hu]
    · have hrec : ¬ Recovers r calls t := fun h => ha h.2.2
      simp only [hg, ha, ne_eq, not_true, if_false]
      refine ⟨_, fun _ _ => rfl, ?_⟩
      refine ⟨by simp [hx, hr], by simp [hv, hrec], hs, by simp [hrec], rfl, ?_, fun _ => rfl⟩
      intro u hu
      simp [stream, State.sendEvent, State.setBuffer, hu]
  · have hrec : ¬ Recovers r calls t := fun h => hg h.2.1
    simp only [hg, ne_eq, not_false_iff, if_true]
    refine ⟨_, fun _ _ => rfl, ?_⟩
    refine ⟨by simp [hx, hr], by simp [hv, hrec], hs, by simp [hrec], rfl, ?_, fun _ => rfl⟩
    intro u hu
    simp [stream, State.sendEvent, State.setBuffer, hu]

theorem registerTable_turn (hx : x.tableInitValidFlag = true)
    (hv : x.recoveredValidTable = false) (hN : Recovers r calls t → cfg.dwellTableSize ≤ 255) :
    ∃ z, (∀ fuel, cfg.dwellTableSize < fuel → registerTable r calls fuel t x = some z) ∧
      Registered r calls t x z := by
  by_cases hr : calls.register t = .tblInfoRecoveredTbl
  · obtain ⟨z, hz, hreg⟩ := recoverTable_turn (x := { x with status := calls.register t }) hx hv
      hr rfl hN
    refine ⟨z, fun fuel hf => ?_, hreg.flag, hreg.recovered, hreg.status, hreg.recos, hreg.inits,
      hreg.others, hreg.own⟩
    rw [← hz fuel hf, registerTable]
    simp only [hr]
  · have hrec : ¬ Recovers r calls t := fun h => hr h.1
    simp only [registerTable]
    cases hc : calls.register t with
    | tblInfoRecoveredTbl => exact absurd hc hr
    | _ =>
      refine ⟨_, fun _ _ => rfl, by simp [hc], by simp [hv, hrec], by simp [hc], by simp [hrec],
        rfl, fun _ _ => rfl, fun _ => rfl⟩

/-- The rest of the turn: the table file, and the summary. -/
def finish (calls : InitCalls cfg) (t : TblIndex cfg) (z : InitState cfg) : InitState cfg :=
  let z := if z.recoveredValidTable = false ∧ z.tableInitValidFlag = true then
    DwellApp.loadTable calls t z else z
  if z.tableInitValidFlag = true then
    { z with state := z.state.setTable t (updateDwellControlInfo (z.state.dwellTables t)) }
  else z

theorem initTable_register (hx : x.tableInitValidFlag = true) (hname : ¬ calls.tableName t < 0)
    (hfile : ¬ calls.tblFileName t < 0) (fuel : ℕ) :
    initTable r calls fuel x t =
      (registerTable r calls fuel t { x with recoveredValidTable := false }).map
        (finish calls t) := by
  rw [initTable, if_neg (not_not.mpr hx), if_neg hname, if_neg hfile]
  rfl

structure Turn (r : Resolver) (calls : InitCalls cfg) (t : TblIndex cfg) (x y : InitState cfg) :
    Prop where
  recovered : outcome r calls t = .recovered → y.tableInitValidFlag = true ∧
    y.tblRecos = x.tblRecos + 1 ∧ y.tblInits = x.tblInits
  loaded : outcome r calls t = .loaded → y.tableInitValidFlag = true ∧
    y.tblRecos = x.tblRecos ∧ y.tblInits = x.tblInits + 1
  failed : ∀ status, outcome r calls t = .failed status →
    y.tableInitValidFlag = false ∧ y.status = status
  others : ∀ u ≠ t, stream y.state u = stream x.state u
  own : ¬ Recovers r calls t → x.state.dwellTables t = initialControl cfg →
    y.state.dwellTables t = initialControl cfg

section Finish

variable {z : InitState cfg}

theorem outcome_registered (hname : ¬ calls.tableName t < 0) (hfile : ¬ calls.tblFileName t < 0) :
    outcome r calls t = if Recovers r calls t then .recovered
      else if calls.register t = .success ∨ calls.register t = .tblInfoRecoveredTbl then
        if calls.load t = .success then .loaded else .failed (calls.load t)
      else .failed (calls.register t) := by
  rw [outcome, if_neg hname, if_neg hfile]

theorem finish_recovered (h : Registered r calls t x z) (hrec : Recovers r calls t)
    (ho : outcome r calls t = .recovered) : Turn r calls t x (finish calls t z) := by
  have hv : z.recoveredValidTable = true := by rw [h.recovered, decide_eq_true hrec]
  have hflag : z.tableInitValidFlag = true := by rw [h.flag, decide_eq_true (Or.inr hrec.1)]
  have hf : finish calls t z = { z with
      state := z.state.setTable t (updateDwellControlInfo (z.state.dwellTables t)) } := by
    simp only [finish, hv, hflag, Bool.true_eq_false, false_and, if_false, if_true]
  rw [hf]
  refine ⟨fun _ => ⟨hflag, ?_, h.inits⟩, by simp [ho], by simp [ho], ?_, fun hn => absurd hrec hn⟩
  · rw [h.recos, if_pos hrec]
  · intro u hu
    rw [stream_setTable, if_neg hu, h.others u hu]

theorem finish_loaded (h : Registered r calls t x z) (hrec : ¬ Recovers r calls t)
    (hreg : calls.register t = .success ∨ calls.register t = .tblInfoRecoveredTbl)
    (ho : outcome r calls t = if calls.load t = .success then .loaded
      else .failed (calls.load t)) : Turn r calls t x (finish calls t z) := by
  have hv : z.recoveredValidTable = false := by rw [h.recovered, decide_eq_false hrec]
  have hflag : z.tableInitValidFlag = true := by rw [h.flag, decide_eq_true hreg]
  have hrecos : z.tblRecos = x.tblRecos := by rw [h.recos, if_neg hrec, Nat.add_zero]
  by_cases hl : calls.load t = .success
  · rw [if_pos hl] at ho
    simp only [finish, hv, hflag, and_self, if_true, DwellApp.loadTable, hl, ne_eq, not_true,
      if_false]
    refine ⟨by simp [ho], fun _ => ⟨rfl, hrecos, congrArg (· + 1) h.inits⟩, by simp [ho], ?_, ?_⟩
    · intro u hu
      rw [stream_setTable, if_neg hu, stream_setBuffer, if_neg hu, stream_setTable, if_neg hu,
        h.others u hu]
    · intro _ hinit
      simp only [State.setTable_self, State.setBuffer_dwellTables, h.own hrec, hinit]
      exact initialControl_info cfg
  · rw [if_neg hl] at ho
    simp only [finish, hv, hflag, and_self, if_true, DwellApp.loadTable, hl, ne_eq,
      not_false_iff, Bool.false_eq_true, if_false]
    refine ⟨by simp [ho], by simp [ho], by simp [ho], ?_, ?_⟩
    · intro u hu
      rw [stream_setTable, if_neg hu, h.others u hu]
    · intro _ hinit
      rw [State.setTable_self, h.own hrec, hinit]
      rfl

theorem finish_unregistered (h : Registered r calls t x z) (hrec : ¬ Recovers r calls t)
    (hreg : ¬ (calls.register t = .success ∨ calls.register t = .tblInfoRecoveredTbl))
    (ho : outcome r calls t = .failed (calls.register t)) :
    Turn r calls t x (finish calls t z) := by
  have hv : z.recoveredValidTable = false := by rw [h.recovered, decide_eq_false hrec]
  have hflag : z.tableInitValidFlag = false := by rw [h.flag, decide_eq_false hreg]
  have hf : finish calls t z = z := by
    simp only [finish, hv, hflag, Bool.false_eq_true, and_false, if_false]
  rw [hf]
  refine ⟨by simp [ho], by simp [ho], ?_, h.others, fun hn hinit => (h.own hn).trans hinit⟩
  intro status hs
  rw [ho] at hs
  exact ⟨hflag, h.status.trans (Outcome.failed.inj hs)⟩

theorem finish_turn (hname : ¬ calls.tableName t < 0) (hfile : ¬ calls.tblFileName t < 0)
    (h : Registered r calls t x z) : Turn r calls t x (finish calls t z) := by
  have ho := outcome_registered (r := r) hname hfile
  by_cases hrec : Recovers r calls t
  · rw [if_pos hrec] at ho
    exact finish_recovered h hrec ho
  · rw [if_neg hrec] at ho
    by_cases hreg : calls.register t = .success ∨ calls.register t = .tblInfoRecoveredTbl
    · rw [if_pos hreg] at ho
      exact finish_loaded h hrec hreg ho
    · rw [if_neg hreg] at ho
      exact finish_unregistered h hrec hreg ho

end Finish

theorem initTable_turn (hx : x.tableInitValidFlag = true)
    (hN : outcome r calls t = .recovered → cfg.dwellTableSize ≤ 255) :
    ∃ y, (∀ fuel, cfg.dwellTableSize < fuel → initTable r calls fuel x t = some y) ∧
      Turn r calls t x y := by
  by_cases hname : calls.tableName t < 0
  · have ho : outcome r calls t = .failed (.error (calls.tableName t)) := if_pos hname
    refine ⟨{ x with
        state := x.state.sendEvent (.initTblNameErr (.error (calls.tableName t)) t)
        status := .error (calls.tableName t)
        recoveredValidTable := false
        tableInitValidFlag := false }, fun fuel _ => ?_, ?_⟩
    · rw [initTable, if_neg (not_not.mpr hx), if_pos hname]
    · exact ⟨by simp [ho], by simp [ho], by simp [ho], fun _ _ => rfl, fun _ h => h⟩
  by_cases hfile : calls.tblFileName t < 0
  · have ho : outcome r calls t = .failed (.error (calls.tblFileName t)) := by
      rw [outcome, if_neg hname, if_pos hfile]
    refine ⟨{ x with
        state := x.state.sendEvent (.initTblFilenameErr (.error (calls.tblFileName t)) t)
        status := .error (calls.tblFileName t)
        recoveredValidTable := false
        tableInitValidFlag := false }, fun fuel _ => ?_, ?_⟩
    · rw [initTable, if_neg (not_not.mpr hx), if_neg hname, if_pos hfile]
    · exact ⟨by simp [ho], by simp [ho], by simp [ho], fun _ _ => rfl, fun _ h => h⟩
  have hrec : Recovers r calls t → cfg.dwellTableSize ≤ 255 := by
    intro h
    apply hN
    rw [outcome, if_neg hname, if_neg hfile, if_pos h]
  obtain ⟨z, hz, hreg⟩ :=
    registerTable_turn (x := { x with recoveredValidTable := false }) hx rfl hrec
  refine ⟨finish calls t z, fun fuel hf => ?_, ?_⟩
  · rw [initTable_register hx hname hfile, hz fuel hf, Option.map_some]
  · exact finish_turn hname hfile
      ⟨hreg.flag, hreg.recovered, hreg.status, hreg.recos, hreg.inits, hreg.others, hreg.own⟩

/-- A recovery of a table with 256 entries or more never ends. -/
theorem initTable_diverges (hx : x.tableInitValidFlag = true)
    (ho : outcome r calls t = .recovered) (hN : 256 ≤ cfg.dwellTableSize) (fuel : ℕ) :
    initTable r calls fuel x t = none := by
  rw [outcome] at ho
  split_ifs at ho with hname hfile hrec
  obtain ⟨hr, hg, ha⟩ := hrec
  have hv : (tableValidationFunc r (some (calls.recovered t))).1 = .success := ha
  rw [initTable_register hx hname hfile, registerTable]
  simp only [hr, recoverTable, hg, ne_eq, not_true, if_false, State.setBuffer_self, hv, if_true,
    copyAndStart_diverges r hN fuel, Option.map_none]

end Turn

section Tables

variable {r : Resolver} {calls : InitCalls cfg} {l : List (TblIndex cfg)} {x : InitState cfg}

theorem initTables_stopped (hx : x.tableInitValidFlag = false) (fuel : ℕ) :
    l.foldlM (initTable r calls fuel) x = some x := by
  induction l with
  | nil => rfl
  | cons i l ih =>
    have hi : initTable r calls fuel x i = some x := if_pos (by simp [hx])
    rw [List.foldlM_cons, hi]
    exact ih

def isRecovered (r : Resolver) (calls : InitCalls cfg) (t : TblIndex cfg) : Bool :=
  outcome r calls t = .recovered

def isLoaded (r : Resolver) (calls : InitCalls cfg) (t : TblIndex cfg) : Bool :=
  outcome r calls t = .loaded

structure Done (r : Resolver) (calls : InitCalls cfg) (l : List (TblIndex cfg))
    (x y : InitState cfg) : Prop where
  flag : y.tableInitValidFlag = true ↔ ∀ t ∈ l, Served r calls t
  counts : y.tableInitValidFlag = true →
    y.tblRecos = x.tblRecos + l.countP (isRecovered r calls) ∧
      y.tblInits = x.tblInits + l.countP (isLoaded r calls)
  failed : y.tableInitValidFlag = false → ∃ t ∈ l, (∀ u ∈ l, u < t → Served r calls u) ∧
    outcome r calls t = .failed y.status ∧ ∀ u ∈ l, t < u → stream y.state u = stream x.state u
  others : ∀ u ∉ l, stream y.state u = stream x.state u
  own : ∀ t ∈ l, ¬ Recovers r calls t → x.state.dwellTables t = initialControl cfg →
    y.state.dwellTables t = initialControl cfg

theorem Turn.counted {i : TblIndex cfg} {y : InitState cfg} (h : Turn r calls i x y)
    (hs : Served r calls i) : y.tableInitValidFlag = true ∧
      y.tblRecos = x.tblRecos + (if isRecovered r calls i then 1 else 0) ∧
      y.tblInits = x.tblInits + (if isLoaded r calls i then 1 else 0) := by
  rcases hs with ho | ho
  · obtain ⟨hf, hr, hi⟩ := h.recovered ho
    exact ⟨hf, by simpa [isRecovered, ho] using hr, by simpa [isLoaded, ho] using hi⟩
  · obtain ⟨hf, hr, hi⟩ := h.loaded ho
    exact ⟨hf, by simpa [isRecovered, ho] using hr, by simpa [isLoaded, ho] using hi⟩

theorem control_of_stream {s s' : State cfg} {t : TblIndex cfg} (h : stream s' t = stream s t) :
    s'.dwellTables t = s.dwellTables t := congrArg Stream.control h

theorem done_failed {i : TblIndex cfg} {y : InitState cfg} {status : CFEStatus}
    (h : Turn r calls i x y) (ho : outcome r calls i = .failed status)
    (hlt : ∀ u ∈ l, i < u) : Done r calls (i :: l) x y := by
  obtain ⟨hf, hst⟩ := h.failed status ho
  have hno : ¬ Served r calls i := by simp [Served, ho]
  refine ⟨?_, ?_, ?_, ?_, ?_⟩
  · rw [hf]
    exact iff_of_false (by simp) fun hall => hno (hall i List.mem_cons_self)
  · intro ht
    rw [hf] at ht
    cases ht
  · intro _
    refine ⟨i, List.mem_cons_self, ?_, hst ▸ ho, fun u _ hu => h.others u hu.ne'⟩
    intro u hu hui
    rcases List.mem_cons.mp hu with rfl | hu
    · exact absurd hui (lt_irrefl u)
    · exact absurd hui (hlt u hu).asymm
  · intro u hu
    exact h.others u fun hui => hu (hui ▸ List.mem_cons_self)
  · intro t _ hn hinit
    by_cases hti : t = i
    · subst hti
      exact h.own hn hinit
    · exact (control_of_stream (h.others t hti)).trans hinit

theorem done_served {i : TblIndex cfg} {y z : InitState cfg} (h : Turn r calls i x y)
    (hs : Served r calls i) (hlt : ∀ u ∈ l, i < u) (hd : Done r calls l y z) :
    Done r calls (i :: l) x z := by
  obtain ⟨-, hr, hi⟩ := h.counted hs
  have hnot : i ∉ l := fun hi => lt_irrefl i (hlt i hi)
  refine ⟨?_, ?_, ?_, ?_, ?_⟩
  · simp only [hd.flag, List.forall_mem_cons, hs, true_and]
  · intro ht
    obtain ⟨hzr, hzi⟩ := hd.counts ht
    rw [hzr, hzi, hr, hi, List.countP_cons, List.countP_cons]
    omega
  · intro hf
    obtain ⟨t, ht, hprev, ho, hlater⟩ := hd.failed hf
    refine ⟨t, List.mem_cons_of_mem i ht, ?_, ho, ?_⟩
    · intro u hu hut
      rcases List.mem_cons.mp hu with rfl | hu
      · exact hs
      · exact hprev u hu hut
    · intro u hu htu
      have hui : u ≠ i := ((hlt t ht).trans htu).ne'
      rw [hlater u ((List.mem_cons.mp hu).resolve_left hui) htu, h.others u hui]
  · intro u hu
    rw [List.mem_cons, not_or] at hu
    rw [hd.others u hu.2, h.others u hu.1]
  · intro t ht hn hinit
    by_cases hti : t = i
    · subst hti
      exact (control_of_stream (hd.others t hnot)).trans (h.own hn hinit)
    · apply hd.own t ((List.mem_cons.mp ht).resolve_left hti) hn
      exact (control_of_stream (h.others t hti)).trans hinit

/-- A recovery is reached only in tables that the copy can walk through. -/
def Clear (r : Resolver) (calls : InitCalls cfg) (l : List (TblIndex cfg)) : Prop :=
  ∀ t ∈ l, (∀ u ∈ l, u < t → Served r calls u) → outcome r calls t = .recovered →
    cfg.dwellTableSize ≤ 255

theorem initTables_done (hl : l.Pairwise (· < ·)) (hc : Clear r calls l)
    (hx : x.tableInitValidFlag = true) :
    ∃ y, (∀ fuel, cfg.dwellTableSize < fuel →
      l.foldlM (initTable r calls fuel) x = some y) ∧ Done r calls l x y := by
  induction l generalizing x with
  | nil =>
    refine ⟨x, fun _ _ => rfl, by simp [hx], by simp, by simp [hx], fun _ _ => rfl, by simp⟩
  | cons i l ih =>
    obtain ⟨hlt, hl⟩ := List.pairwise_cons.mp hl
    have hfirst : ∀ u ∈ i :: l, u < i → Served r calls u := by
      intro u hu hui
      rcases List.mem_cons.mp hu with rfl | hu
      · exact absurd hui (lt_irrefl u)
      · exact absurd hui (hlt u hu).asymm
    obtain ⟨y, hy, ht⟩ := initTable_turn hx (hc i List.mem_cons_self hfirst)
    by_cases hs : Served r calls i
    · have hclear : Clear r calls l := by
        intro t ht hprev
        apply hc t (List.mem_cons_of_mem i ht)
        intro u hu hut
        rcases List.mem_cons.mp hu with rfl | hu
        · exact hs
        · exact hprev u hu hut
      obtain ⟨z, hz, hd⟩ := ih hl hclear (ht.counted hs).1
      refine ⟨z, fun fuel hf => ?_, done_served ht hs hlt hd⟩
      rw [List.foldlM_cons, hy fuel hf]
      exact hz fuel hf
    · obtain ⟨status, ho⟩ : ∃ status, outcome r calls i = .failed status := by
        cases ho : outcome r calls i with
        | recovered => exact absurd (Or.inl ho) hs
        | loaded => exact absurd (Or.inr ho) hs
        | failed status => exact ⟨status, rfl⟩
      refine ⟨y, fun fuel hf => ?_, done_failed ht ho hlt⟩
      rw [List.foldlM_cons, hy fuel hf]
      exact initTables_stopped (ht.failed status ho).1 fuel

theorem initTables_diverges (hl : l.Pairwise (· < ·)) (hx : x.tableInitValidFlag = true)
    (hN : 256 ≤ cfg.dwellTableSize) {t : TblIndex cfg} (ht : t ∈ l)
    (hprev : ∀ u ∈ l, u < t → Served r calls u) (ho : outcome r calls t = .recovered) {fuel : ℕ}
    (hf : cfg.dwellTableSize < fuel) : l.foldlM (initTable r calls fuel) x = none := by
  induction l generalizing x with
  | nil => cases ht
  | cons i l ih =>
    obtain ⟨hlt, hl⟩ := List.pairwise_cons.mp hl
    rw [List.foldlM_cons]
    by_cases hrec : outcome r calls i = .recovered
    · rw [initTable_diverges hx hrec hN]
      rfl
    · have hti : t ∈ l := by
        rcases List.mem_cons.mp ht with rfl | ht
        · exact absurd ho hrec
        · exact ht
      obtain ⟨y, hy, hturn⟩ := initTable_turn hx fun h => absurd h hrec
      have hs := hprev i List.mem_cons_self (hlt t hti)
      rw [hy fuel hf]
      exact ih hl (hturn.counted hs).1 hti fun u hu => hprev u (List.mem_cons_of_mem i hu)

end Tables

/-- The accounts of an initialization from `s` that returned `status` in `s'`. -/
structure Accounted (r : Resolver) (calls : InitCalls cfg) (s : State cfg) (status : CFEStatus)
    (s' : State cfg) : Prop where
  success : status = .success ↔ ∀ t, Served r calls t
  counts : status = .success → ∃ recos inits, recos + inits = cfg.numDwellTables ∧
    recos = (List.finRange cfg.numDwellTables).countP (isRecovered r calls) ∧
    inits = (List.finRange cfg.numDwellTables).countP (isLoaded r calls) ∧
    s'.events.getLast? = some (.tblInitInf recos inits)
  failed : status ≠ .success → ∃ t, (∀ u < t, Served r calls u) ∧
    outcome r calls t = .failed status ∧ ∀ u > t, stream s' u = stream s u
  unrecovered : ∀ t, ¬ Recovers r calls t → (s'.dwellTables t).enabled = dwellDisabled ∧
    (s'.dwellTables t).addrCount = 0 ∧ (s'.dwellTables t).dataSize = 0 ∧
    (s'.dwellTables t).rate = 0 ∧ (s'.dwellTables t).entry = (initialControl cfg).entry

theorem countP_served {r : Resolver} {calls : InitCalls cfg} {l : List (TblIndex cfg)}
    (h : ∀ t ∈ l, Served r calls t) :
    l.countP (isRecovered r calls) + l.countP (isLoaded r calls) = l.length := by
  induction l with
  | nil => rfl
  | cons i l ih =>
    have hl := ih fun t ht => h t (List.mem_cons_of_mem i ht)
    rw [List.countP_cons, List.countP_cons, List.length_cons]
    rcases h i List.mem_cons_self with ho | ho
    · simp only [isRecovered, isLoaded, ho, decide_true, reduceCtorEq, decide_false, if_true,
        Bool.false_eq_true, if_false] at hl ⊢
      omega
    · simp only [isRecovered, isLoaded, ho, decide_true, reduceCtorEq, decide_false, if_true,
        Bool.false_eq_true, if_false] at hl ⊢
      omega

theorem done_accounted {r : Resolver} {calls : InitCalls cfg} {s : State cfg} {y : InitState cfg}
    (hs : ∀ t, s.dwellTables t = initialControl cfg)
    (h : Done r calls (List.finRange cfg.numDwellTables) ⟨s, .success, true, true, 0, 0⟩ y) :
    Accounted r calls s (if y.tableInitValidFlag = true then .success else y.status)
      (y.state.sendEvent (.tblInitInf y.tblRecos y.tblInits)) := by
  have hall : y.tableInitValidFlag = true ↔ ∀ t, Served r calls t := by
    simpa using h.flag
  have hfail : y.tableInitValidFlag = false → y.status ≠ .success := by
    intro hf
    obtain ⟨t, -, -, ho, -⟩ := h.failed hf
    exact failed_ne_success ho
  have hok : (if y.tableInitValidFlag = true then CFEStatus.success else y.status) = .success ↔
      y.tableInitValidFlag = true := by
    cases hf : y.tableInitValidFlag with
    | true => simp
    | false => simpa using hfail hf
  refine ⟨hok.trans hall, ?_, ?_, ?_⟩
  · intro hst
    obtain ⟨hr, hi⟩ := h.counts (hok.mp hst)
    have hsum := countP_served fun t (_ : t ∈ List.finRange cfg.numDwellTables) =>
      hall.mp (hok.mp hst) t
    rw [List.length_finRange] at hsum
    refine ⟨y.tblRecos, y.tblInits, ?_, ?_, ?_, ?_⟩
    · rw [hr, hi]
      simpa using hsum
    · simpa using hr
    · simpa using hi
    · simp [State.sendEvent]
  · intro hst
    have hf : y.tableInitValidFlag = false := by simpa using mt hok.mpr hst
    obtain ⟨t, -, hprev, ho, hlater⟩ := h.failed hf
    refine ⟨t, fun u hu => hprev u (List.mem_finRange u) hu, ?_,
      fun u hu => hlater u (List.mem_finRange u) hu⟩
    rw [hf]
    exact ho
  · intro t hn
    have hc : (y.state.sendEvent (.tblInitInf y.tblRecos y.tblInits)).dwellTables t =
        initialControl cfg := h.own t (List.mem_finRange t) hn (hs t)
    rw [hc]
    exact ⟨rfl, rfl, rfl, rfl, rfl⟩

/-- Initialization returns and its accounts are right exactly if tables have at most 255
entries, or it comes to no table with recovered contents that can be used. -/
theorem init_accounted_iff (r : Resolver) (calls : InitCalls cfg) (raw : State cfg) :
    (∃ status s', (∀ fuel, cfg.dwellTableSize < fuel →
        initTableServices r calls fuel (initControlStructures raw) = some (status, s')) ∧
      Accounted r calls (initControlStructures raw) status s') ↔
    cfg.dwellTableSize ≤ 255 ∨
      ∀ t, (∀ u < t, Served r calls u) → outcome r calls t ≠ .recovered := by
  have hsorted := List.pairwise_lt_finRange cfg.numDwellTables
  constructor
  · rintro ⟨status, s', h, -⟩
    by_contra hno
    push Not at hno
    obtain ⟨hN, t, hprev, ho⟩ := hno
    have hnone := h _ (Nat.lt_succ_self _)
    rw [initTableServices, initTables_diverges hsorted rfl hN (List.mem_finRange t)
      (fun u _ hu => hprev u hu) ho (Nat.lt_succ_self _)] at hnone
    cases hnone
  · intro h
    have hclear : Clear r calls (List.finRange cfg.numDwellTables) := by
      intro t _ hprev ho
      rcases h with hN | hno
      · exact hN
      · exact absurd ho (hno t fun u hu => hprev u (List.mem_finRange u) hu)
    obtain ⟨y, hy, hd⟩ := initTables_done
      (x := ⟨initControlStructures raw, .success, true, true, 0, 0⟩) hsorted hclear rfl
    refine ⟨_, _, fun fuel hf => ?_, done_accounted (fun _ => rfl) hd⟩
    rw [initTableServices, hy fuel hf]
    rfl

namespace Counterexample

def config : Config := manyEntries

def tbl : DwellTableLoad config := loadTable config 0 []

end Counterexample

/-- A valid table of 256 entries is recovered, and initialization does not return. -/
theorem recovery_never_returns :
    Accepted flatMemory.resolver Counterexample.tbl ∧
    outcome flatMemory.resolver (recoverAll Counterexample.tbl) 0 = .recovered ∧
    ¬∃ fuel result, initTableServices flatMemory.resolver (recoverAll Counterexample.tbl) fuel
      (initControlStructures (blankState _)) = some result := by
  have ho : outcome flatMemory.resolver (recoverAll Counterexample.tbl) 0 = .recovered := by
    decide +kernel
  refine ⟨by decide +kernel, ho, ?_⟩
  rintro ⟨fuel, result, h⟩
  have hlist : List.finRange Counterexample.config.numDwellTables = [0] := rfl
  rw [initTableServices, hlist, List.foldlM_cons, initTable_diverges rfl ho le_rfl] at h
  cases h

end InitAccounting
