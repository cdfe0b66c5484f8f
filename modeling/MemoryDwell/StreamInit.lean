import MemoryDwell.DwellStreams

/-! # Streams after initialization

The loop of MD_InitTableServices seen through the streams: a table is either recovered
and copied, or its file is loaded behind an empty local structure. -/
namespace StreamInit

open DwellData DwellUtils DwellTbl DwellApp DwellRuns DwellStreams FueledLoop

variable {cfg : Config}

/-- Registration found contents that can be used. -/
def Recovers (r : Resolver) (calls : InitCalls cfg) (t : TblIndex cfg) : Prop :=
  calls.register t = .tblInfoRecoveredTbl ∧ calls.getAddress t = .tblInfoUpdated ∧
    Accepted r (calls.recovered t)

instance (r : Resolver) (calls : InitCalls cfg) (t : TblIndex cfg) :
    Decidable (Recovers r calls t) := inferInstanceAs (Decidable (_ ∧ _))

/-- A recovered table is copied. For any other table only `Enabled` is written, and the
file is in the buffer. -/
def initStream (r : Resolver) (calls : InitCalls cfg) (t : TblIndex cfg) (x : Stream cfg) :
    Stream cfg :=
  if Recovers r calls t then
    { x with control := adopt r (calls.recovered t) x.control, buffer := calls.recovered t }
  else
    { x with
      control := updateDwellControlInfo { x.control with enabled := dwellDisabled }
      buffer := calls.file t }

theorem adopt_info (r : Resolver) (tbl : DwellTableLoad cfg) (c : DwellPacketControl cfg) :
    updateDwellControlInfo (adopt r tbl c) = adopt r tbl c := by
  rw [adopt]
  split_ifs <;> rfl

theorem recoverTable_some {r : Resolver} {calls : InitCalls cfg} {fuel : ℕ} {t : TblIndex cfg}
    {x y : InitState cfg} (h : recoverTable r calls fuel t x = some y)
    (hr : calls.register t = .tblInfoRecoveredTbl) (hx : x.recoveredValidTable = false) :
    y.tableInitValidFlag = x.tableInitValidFlag ∧
    (y.recoveredValidTable = true ↔ Recovers r calls t) ∧
    (y.recoveredValidTable = true → cfg.dwellTableSize ≤ 255) ∧
    ∀ u, stream y.state u = if u = t then
      { stream x.state t with
        control := if y.recoveredValidTable = true then
          adopt r (calls.recovered t) (x.state.dwellTables t) else x.state.dwellTables t
        buffer := calls.recovered t } else stream x.state u := by
  simp only [recoverTable] at h
  split_ifs at h with hg hv
  · cases h
    refine ⟨rfl, by simp [hx, Recovers, hg], by simp [hx], fun u => ?_⟩
    simp only [stream_sendEvent, stream_setBuffer, hx, Bool.false_eq_true, if_false]
    rfl
  · rw [Option.map_eq_some_iff] at h
    obtain ⟨s, hs, rfl⟩ := h
    obtain ⟨hn, rfl⟩ := copyAndStart_some hs
    refine ⟨rfl, ?_, fun _ => hn, fun u => ?_⟩
    · simp only [State.setBuffer_self] at hv
      simp only [Recovers, hr, not_not.mp hg, true_and, true_iff]
      exact hv
    · simp only [stream_sendEvent, stream_setTable, if_true]
      by_cases hu : u = t
      · simp [hu, stream]
      · simp [hu, stream, State.setBuffer]
  · cases h
    simp only [State.setBuffer_self] at hv
    refine ⟨rfl, by simp [hx, Recovers, Accepted, hv], by simp [hx], fun u => ?_⟩
    by_cases hu : u = t
    · simp [hu, hx, stream, State.sendEvent]
    · simp [hu, stream, State.sendEvent, State.setBuffer]

theorem registerTable_some {r : Resolver} {calls : InitCalls cfg} {fuel : ℕ} {t : TblIndex cfg}
    {x y : InitState cfg} (h : registerTable r calls fuel t x = some y)
    (hx : x.recoveredValidTable = false) (hf : y.tableInitValidFlag = true) :
    (y.recoveredValidTable = true ↔ Recovers r calls t) ∧
    (y.recoveredValidTable = true → cfg.dwellTableSize ≤ 255) ∧
    (∀ u ≠ t, stream y.state u = stream x.state u) ∧
    ∃ b, stream y.state t = { stream x.state t with
      control := if y.recoveredValidTable = true then
        adopt r (calls.recovered t) (x.state.dwellTables t) else x.state.dwellTables t
      buffer := b } ∧ (y.recoveredValidTable = true → b = calls.recovered t) := by
  simp only [registerTable] at h
  split at h
  next hr =>
    obtain ⟨-, hiff, hn, hs⟩ := recoverTable_some h hr hx
    exact ⟨hiff, hn, fun u hu => by rw [hs, if_neg hu],
      calls.recovered t, by rw [hs, if_pos rfl], fun _ => rfl⟩
  · cases h
    cases hf
  next hr =>
    cases h
    exact ⟨by simp [hx, Recovers, hr], by simp [hx], fun _ _ => rfl,
      x.state.tblBuffer t, by simp [hx, stream], by simp [hx]⟩
  · cases h
    cases hf

theorem initTable_some {r : Resolver} {calls : InitCalls cfg} {fuel : ℕ} {t : TblIndex cfg}
    {x y : InitState cfg} (h : initTable r calls fuel x t = some y)
    (hf : y.tableInitValidFlag = true) :
    x.tableInitValidFlag = true ∧ (Recovers r calls t → cfg.dwellTableSize ≤ 255) ∧
    ∀ u, stream y.state u =
      if u = t then initStream r calls t (stream x.state t) else stream x.state u := by
  simp only [initTable] at h
  split_ifs at h with hx h1 h2
  · cases h
    exact absurd hf hx
  · cases h
    cases hf
  · cases h
    cases hf
  · rw [Option.map_eq_some_iff] at h
    obtain ⟨z, hz, hy⟩ := h
    by_cases hzf : z.tableInitValidFlag = true
    · obtain ⟨hiff, hn, hother, b, hself, hb⟩ := registerTable_some hz rfl hzf
      refine ⟨not_not.mp hx, fun hr => hn (hiff.mpr hr), fun u => ?_⟩
      by_cases hr : Recovers r calls t
      · have hzr := hiff.mpr hr
        simp only [hzr, Bool.true_eq_false, false_and, if_false, hzf, if_true] at hy
        subst hy
        by_cases hu : u = t
        · rw [if_pos hu, stream_setTable, if_pos hu, hself, initStream, if_pos hr, hb hzr]
          have hc : z.state.dwellTables t =
              adopt r (calls.recovered t) (x.state.dwellTables t) := by
            have := congrArg Stream.control hself
            simpa [hzr, stream] using this
          rw [hc, adopt_info]
          rfl
        · rw [if_neg hu, stream_setTable, if_neg hu, hother u hu]
      · have hzr : z.recoveredValidTable = false := by
          simpa using mt hiff.mp hr
        have hc : z.state.dwellTables t = x.state.dwellTables t := by
          have := congrArg Stream.control hself
          simpa [hzr, stream] using this
        have hk : z.state.dwellPkt t = x.state.dwellPkt t := congrArg Stream.pkt hself
        simp only [hzr, hzf, and_self, if_true, loadTable] at hy
        by_cases hl : calls.load t = .success
        · simp only [hl, ne_eq, not_true, if_false, if_true] at hy
          subst hy
          rw [stream_setTable, stream_setBuffer, stream_setTable]
          by_cases hu : u = t
          · simp [hu, initStream, hr, stream, hc, hk]
          · simp [hu, hother u hu, stream_setBuffer, stream_setTable]
        · simp only [hl, ne_eq, not_false_iff, if_true, Bool.false_eq_true, if_false] at hy
          subst hy
          cases hf
    · simp only [hzf, and_false, if_false, Bool.false_eq_true] at hy
      subst hy
      exact absurd hf hzf

theorem initTables_frame {r : Resolver} {calls : InitCalls cfg} {fuel : ℕ}
    {l : List (TblIndex cfg)} {x y : InitState cfg}
    (h : l.foldlM (initTable r calls fuel) x = some y) (hf : y.tableInitValidFlag = true) :
    x.tableInitValidFlag = true ∧ ∀ u ∉ l, stream y.state u = stream x.state u := by
  induction l generalizing x with
  | nil =>
    cases h
    exact ⟨hf, fun _ _ => rfl⟩
  | cons i l ih =>
    rw [List.foldlM_cons, Option.bind_eq_bind, Option.bind_eq_some_iff] at h
    obtain ⟨z, hz, h⟩ := h
    obtain ⟨hzf, hs⟩ := ih h
    obtain ⟨hxf, -, hi⟩ := initTable_some hz hzf
    refine ⟨hxf, fun u hu => ?_⟩
    rw [List.mem_cons, not_or] at hu
    rw [hs u hu.2, hi, if_neg hu.1]

theorem initTables_some {r : Resolver} {calls : InitCalls cfg} {fuel : ℕ} {l : List (TblIndex cfg)}
    {x y : InitState cfg} (h : l.foldlM (initTable r calls fuel) x = some y) (hl : l.Nodup)
    (hf : y.tableInitValidFlag = true) (t : TblIndex cfg) (ht : t ∈ l) :
    (Recovers r calls t → cfg.dwellTableSize ≤ 255) ∧
    stream y.state t = initStream r calls t (stream x.state t) := by
  induction l generalizing x with
  | nil => simp at ht
  | cons i l ih =>
    rw [List.foldlM_cons, Option.bind_eq_bind, Option.bind_eq_some_iff] at h
    obtain ⟨z, hz, h⟩ := h
    rw [List.nodup_cons] at hl
    obtain ⟨hzf, hs⟩ := initTables_frame h hf
    obtain ⟨-, hn, hi⟩ := initTable_some hz hzf
    by_cases hti : t = i
    · subst hti
      exact ⟨hn, by rw [hs t hl.1, hi, if_pos rfl]⟩
    · obtain ⟨hn, hst⟩ := ih h hl.2 ((List.mem_cons.mp ht).resolve_left hti)
      exact ⟨hn, by rw [hst, hi, if_neg hti]⟩

theorem registerTable_status {r : Resolver} {calls : InitCalls cfg} {fuel : ℕ} {t : TblIndex cfg}
    {x y : InitState cfg} (h : registerTable r calls fuel t x = some y)
    (hx : x.tableInitValidFlag = true) (hr : x.recoveredValidTable = false) :
    y.tableInitValidFlag = false → y.status ≠ .success := by
  simp only [registerTable] at h
  split at h
  next hreg =>
    intro hf
    rw [(recoverTable_some h hreg hr).1, hx] at hf
    cases hf
  next hreg =>
    cases h
    intro _ hs
    rw [hreg] at hs
    cases hs
  · cases h
    intro hf
    cases hf
  next hne =>
    cases h
    exact fun _ => hne

theorem initTable_status {r : Resolver} {calls : InitCalls cfg} {fuel : ℕ} {t : TblIndex cfg}
    {x y : InitState cfg} (h : initTable r calls fuel x t = some y)
    (hx : x.tableInitValidFlag = false → x.status ≠ .success) :
    y.tableInitValidFlag = false → y.status ≠ .success := by
  simp only [initTable] at h
  split_ifs at h with hf h1 h2
  · cases h
    exact hx
  · cases h
    rintro - ⟨⟩
  · cases h
    rintro - ⟨⟩
  · rw [Option.map_eq_some_iff] at h
    obtain ⟨z, hz, hy⟩ := h
    have hzs := registerTable_status hz (not_not.mp hf) rfl
    by_cases hl : z.recoveredValidTable = false ∧ z.tableInitValidFlag = true
    · rw [if_pos hl] at hy
      simp only [loadTable] at hy
      by_cases hs : calls.load t = .success
      · simp only [hs, ne_eq, not_true, if_false, hl.2, if_true] at hy
        subst hy
        simp
      · simp only [hs, ne_eq, not_false_iff, if_true, Bool.false_eq_true, if_false] at hy
        subst hy
        exact fun _ => hs
    · rw [if_neg hl] at hy
      split_ifs at hy with hzf
      · subst hy
        simp [hzf]
      · subst hy
        exact hzs

def initialControl (cfg : Config) : DwellPacketControl cfg :=
  { zeroControl cfg with countdown := 1 }

/-- Where the stream of a table starts after a successful initialization. -/
theorem started_stream {r : Resolver} {calls : InitCalls cfg} {s : State cfg}
    (h : Started r calls s) (t : TblIndex cfg) :
    (Recovers r calls t → cfg.dwellTableSize ≤ 255) ∧
    ∃ buffer, stream s t = initStream r calls t
      ⟨initialControl cfg, { initMsg cfg with signature := (initMsg cfg).signature.setNul 0 },
        buffer⟩ := by
  obtain ⟨raw, fuel, h⟩ := h
  rw [initTableServices, Option.map_eq_some_iff] at h
  obtain ⟨y, hy, h⟩ := h
  simp only [Prod.mk.injEq] at h
  obtain ⟨hst, rfl⟩ := h
  have hf : y.tableInitValidFlag = true := by
    have hs : y.tableInitValidFlag = false → y.status ≠ .success :=
      foldlM_keeps (I := fun x : InitState cfg => x.tableInitValidFlag = false →
        x.status ≠ .success) (fun x t z hx hz => initTable_status hz hx) (by simp) hy
    by_contra hn
    rw [if_neg hn] at hst
    exact hs (by simpa using hn) hst
  obtain ⟨hn, hs⟩ := initTables_some hy (List.nodup_finRange _) hf t (List.mem_finRange t)
  exact ⟨hn, (prepared raw).tblBuffer t, hs⟩

theorem started_control {r : Resolver} {calls : InitCalls cfg} {s : State cfg}
    (h : Started r calls s) (t : TblIndex cfg) :
    s.dwellTables t =
      if Recovers r calls t then adopt r (calls.recovered t) (initialControl cfg)
      else updateDwellControlInfo { initialControl cfg with enabled := dwellDisabled } := by
  obtain ⟨-, buffer, hs⟩ := started_stream h t
  have hc : s.dwellTables t = _ := congrArg Stream.control hs
  rw [hc, initStream]
  split_ifs <;> rfl

end StreamInit
