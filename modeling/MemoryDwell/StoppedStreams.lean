import MemoryDwell.SwitchCommands

/-! # Stopped streams

A table that was stopped is neither read nor sent, and housekeeping shows it stopped,
until it is started or an enabled table is loaded. -/
namespace StoppedStreams

open DwellData DwellUtils DwellTbl DwellPkts DwellCmds DwellApp DwellDispatch DwellRuns
open DwellStreams DwellTraces SwitchCommands FueledLoop TransitionRuns

variable {cfg : Config}

structure Stopped (c : DwellPacketControl cfg) : Prop where
  enabled : c.enabled = dwellDisabled
  countdown : c.countdown = 0
  currentEntry : c.currentEntry = 0
  pktOffset : c.pktOffset = 0

/-- What housekeeping says of a stopped table. -/
structure ReportedStopped (t : TblIndex cfg) (p : HkTlmPayload cfg) : Prop where
  dwellEnabledMask : p.dwellEnabledMask.testBit t = false
  countdown : p.countdown t = 0
  dwellTblEntry : p.dwellTblEntry t = 0
  dwellPktOffset : p.dwellPktOffset t = 0

/-- A Stop command whose mask contains the table, granted or not. -/
def Stops (l : Label cfg) (t : TblIndex cfg) : Prop :=
  match opOf l t with
  | .stop _ => True
  | _ => False

/-- Anything but a Start of the table or an update with an enabled table. -/
def Quiet (t : TblIndex cfg) (l : Label cfg) : Prop :=
  match opOf l t with
  | .start _ => False
  | .load tbl _ => tbl.enabled ≠ dwellEnabled
  | _ => True

instance (l : Label cfg) (t : TblIndex cfg) : Decidable (Stops l t) := by
  unfold Stops
  induction opOf l t using StreamOp.byAnswer <;> infer_instance

instance (l : Label cfg) (t : TblIndex cfg) : Decidable (Quiet t l) := by
  unfold Quiet
  induction opOf l t using StreamOp.byAnswer <;> infer_instance

theorem Stops.op {l : Label cfg} {t : TblIndex cfg} (h : Stops l t) :
    ∃ granted, opOf l t = .stop granted := by
  rw [Stops] at h
  split at h
  next granted hop => exact ⟨granted, hop⟩
  · exact h.elim

theorem silent_pass {svc : Services cfg} {fuel : ℕ} {t : TblIndex cfg}
    {c : DwellPacketControl cfg} {k : DwellPkt cfg} {p : Pass cfg}
    (h : dwellTable svc fuel t (.start c k) = some p)
    (hoff : ¬(c.enabled = dwellEnabled ∧ 0 < c.rate)) :
    p.control = c ∧ p.pkt = k ∧ p.actions = [] := by
  rw [dwellTable_off svc fuel t hoff] at h
  cases h
  exact ⟨rfl, rfl, rfl⟩

theorem silent_move {l : Label cfg} {t : TblIndex cfg} {x y : Stream cfg} (m : StreamMove l t x y)
    (hoff : ¬(x.control.enabled = dwellEnabled ∧ 0 < x.control.rate)) :
    actionsOf t l.actions = [] := by
  have hs := m.step
  cases hop : opOf l t with
  | pass =>
    rw [hop] at hs
    obtain ⟨fuel, p, hp, -, ha⟩ := hs
    rw [ha, (silent_pass hp hoff).2.2]
  | load tbl copied =>
    rw [hop] at hs
    exact hs.2.1
  | _ =>
    rw [hop] at hs
    exact hs.2

theorem Stopped.off {c : DwellPacketControl cfg} (h : Stopped c) :
    ¬(c.enabled = dwellEnabled ∧ 0 < c.rate) := by
  rintro ⟨he, -⟩
  rw [h.enabled] at he
  exact absurd he (by decide)

theorem stops_loadAccepted {l : Label cfg} {t : TblIndex cfg} (h : Stops l t) (r : Resolver)
    (u : TblIndex cfg) (x : Stream cfg) : LoadAccepted r l u x := by
  obtain ⟨granted, hop⟩ := h.op
  obtain ⟨svc, input, actions⟩ := l
  cases input with
  | manage v calls =>
    simp only [opOf, installOp] at hop
    split at hop
    · split_ifs at hop
    · cases hop
  | message bufPtr =>
    rw [LoadAccepted]
    cases hu : opOf ⟨svc, .message bufPtr, actions⟩ u with
    | load tbl copied => exact absurd hu (message_no_load svc bufPtr actions u tbl copied)
    | _ => trivial

theorem stopped_of_stops {l : Label cfg} {t : TblIndex cfg} {x y : Stream cfg} (h : Stops l t)
    (m : StreamMove l t x y) : Stopped y.control := by
  have hs := m.step
  obtain ⟨granted, hop⟩ := h.op
  rw [hop] at hs
  exact hs.1 ▸ ⟨rfl, rfl, rfl, rfl⟩

theorem stopped_adopt {c : DwellPacketControl cfg} (h : Stopped c) (r : Resolver)
    {tbl : DwellTableLoad cfg} (hd : tbl.enabled = dwellDisabled) : Stopped (adopt r tbl c) := by
  have hne : ¬ tbl.enabled = dwellEnabled := by
    rw [hd]
    decide
  rw [adopt, if_neg hne]
  exact ⟨by simp [copiedUpTo, hd, dwellDisabled], h.countdown, h.currentEntry, h.pktOffset⟩

theorem stopped_move {l : Label cfg} {t : TblIndex cfg} {x y : Stream cfg}
    (ha : ∃ r, LoadAccepted r l t x) (hq : Quiet t l) (hx : Stopped x.control)
    (m : StreamMove l t x y) : Stopped y.control := by
  simp only [LoadAccepted] at ha
  simp only [Quiet] at hq
  rcases m.control_cases with h | ⟨_, hop, h⟩ | ⟨_, -, h⟩ | ⟨e, new, load, -, h⟩ |
    ⟨e, new, load, -, h⟩ | ⟨_, h⟩ | ⟨tbl, hop, h⟩ | ⟨fuel, p, -, hpass, h⟩ <;> rw [h]
  · exact hx
  · rw [hop] at hq
    exact hq.elim
  · exact ⟨rfl, rfl, rfl, rfl⟩
  · exact ⟨hx.enabled, hx.countdown, hx.currentEntry, hx.pktOffset⟩
  · exact ⟨hx.enabled, hx.countdown, hx.currentEntry, hx.pktOffset⟩
  · exact ⟨hx.enabled, hx.countdown, hx.currentEntry, hx.pktOffset⟩
  · rw [hop] at ha hq
    obtain ⟨r, ha⟩ := ha
    exact stopped_adopt hx _ (ha.enabled.resolve_right hq)
  · rw [(silent_pass hpass hx.off).1]
    exact hx

theorem reportedStopped {s : State cfg} {t : TblIndex cfg} (h : Stopped (s.dwellTables t))
    (hf : ∀ u, Flagged (s.dwellTables u)) : ReportedStopped t (hkPayload s) := by
  refine ⟨?_, ?_, h.currentEntry, h.pktOffset⟩
  · by_contra hb
    rw [Bool.not_eq_false] at hb
    obtain ⟨u, hu, he⟩ := (testBit_memDwellEnableBits hf t).mp hb
    rw [Fin.ext hu, h.enabled] at he
    exact absurd he (by decide)
  · change (s.dwellTables t).countdown % 65536 = 0
    rw [h.countdown]

theorem dwellLoop_sendHk {svc : Services cfg} {fuel : ℕ} {s : State cfg} {w : Wakeup cfg}
    (h : dwellLoop svc fuel s = some w) (p : HkTlmPayload cfg) : .sendHk p ∉ w.actions := by
  refine foldlM_keeps (I := fun w : Wakeup cfg => .sendHk p ∉ w.actions) ?_ List.not_mem_nil h
  intro w t v hw hv
  rw [dwellTurn, Option.map_eq_some_iff] at hv
  obtain ⟨q, hq, rfl⟩ := hv
  intro hp
  rcases List.mem_append.mp hp with hp | hp
  · exact hw hp
  · cases dwellTable_actions hq _ hp

theorem step_sendHk {s s' : State cfg} {l : Label cfg} (st : AnyStep s l s') {p : HkTlmPayload cfg}
    (hp : .sendHk p ∈ l.actions) : p = hkPayload s := by
  obtain ⟨fuel, he⟩ := st
  obtain ⟨svc, input, actions⟩ := l
  cases input with
  | manage t calls =>
    simp only [exec, Option.map_eq_some_iff, Prod.mk.injEq, Label.mk.injEq, true_and] at he
    obtain ⟨m, hm, rfl, -⟩ := he
    rcases manageLoop_cases hm with ⟨ha, -⟩ | ⟨tbl, copied, ha, -⟩
    · simp [ha] at hp
    · simp [ha] at hp
  | message bufPtr =>
    simp only [exec, Option.map_eq_some_iff, Prod.mk.injEq, Label.mk.injEq, true_and] at he
    obtain ⟨⟨v, as⟩, hv, rfl, -⟩ := he
    cases bufPtr with
    | none =>
      cases hv
      cases hp
    | some msg =>
      simp only [processCommandPacket] at hv
      cases hid : msg.msgId with
      | wakeup =>
        simp only [hid] at hv
        split_ifs at hv
        · cases hv
          cases hp
        · rw [Option.map_eq_some_iff] at hv
          obtain ⟨w, hw, hv⟩ := hv
          cases hv
          exact absurd hp (dwellLoop_sendHk hw p)
      | cmd =>
        simp only [hid] at hv
        cases hv
        cases hp
      | sendHk =>
        simp only [hid] at hv
        split_ifs at hv
        · cases hv
          cases hp
        · cases hv
          simpa [hkStatus] using hp
      | other v =>
        simp only [hid] at hv
        cases hv
        cases hp

/-- From a Stop on, as long as the table is neither started nor loaded enabled: it stays
stopped, it is not read or sent, and housekeeping says so. A table that is disabled or
has no rate is silent in every step. -/
theorem stopped_stays_silent {r : Resolver} {calls : InitCalls cfg} {s₀ s₁ s₂ s₃ : State cfg}
    {l : Label cfg} {tr₁ tr₂ : List (State cfg × Label cfg)} {t : TblIndex cfg}
    (h₀ : Started r calls s₀) (before : Run AnyStep s₀ tr₁ s₁) (stop : AnyStep s₁ l s₂)
    (after : Run AnyStep s₂ tr₂ s₃) (stops : Stops l t)
    (quiet : EveryStep (fun _ l => Quiet t l) tr₂)
    (loads₁ : EveryStep (EachStream fun l t x => ∃ r, LoadAccepted r l t x) tr₁)
    (loads₂ : EveryStep (EachStream fun l t x => ∃ r, LoadAccepted r l t x) tr₂) :
    EveryState (fun s => Stopped (s.dwellTables t) ∧ ReportedStopped t (hkStatus s).1.hkPkt)
        tr₂ s₃ ∧
      EveryStep (fun _ l => actionsOf t l.actions = [] ∧
        ∀ p, .sendHk p ∈ l.actions → ReportedStopped t p) tr₂ ∧
      ∀ (s : State cfg) l s' u, AnyStep s l s' →
        ¬((s.dwellTables u).enabled = dwellEnabled ∧ 0 < (s.dwellTables u).rate) →
        actionsOf u l.actions = [] := by
  have hf : ∀ u, Flagged (s₂.dwellTables u) := by
    intro u
    exact flagged_move ⟨r, stops_loadAccepted stops r u _⟩ ((run_flagged h₀ before loads₁).2 u)
      (anyStep_move stop u)
  have hs : Stopped (s₂.dwellTables t) := stopped_of_stops stops (anyStep_move stop t)
  have inv : EveryState (fun s => Stopped (s.dwellTables t) ∧ ∀ u, Flagged (s.dwellTables u))
      tr₂ s₃ := by
    refine after.everyState (P := fun s l => Quiet t l ∧
      EachStream (fun l t x => ∃ r, LoadAccepted r l t x) s l) ?_ ⟨hs, hf⟩
      fun q hq => ⟨quiet q hq, loads₂ q hq⟩
    rintro s l s' ⟨hq, hl⟩ ⟨hst, hfl⟩ st
    exact ⟨stopped_move (hl t) hq hst (anyStep_move st t),
      fun u => flagged_move (hl u) (hfl u) (anyStep_move st u)⟩
  refine ⟨?_, ?_, ?_⟩
  · exact inv.imp fun s h => ⟨h.1, reportedStopped h.1 h.2⟩
  · intro q hq
    obtain ⟨hst, hfl⟩ := inv.1 q hq
    obtain ⟨s', st⟩ := after.steps q hq
    refine ⟨silent_move (anyStep_move st t) hst.off, fun p hp => ?_⟩
    rw [step_sendHk st hp]
    exact reportedStopped hst hfl
  · intro s l s' u st hoff
    exact silent_move (anyStep_move st u) hoff

theorem stopped_stays_silent_run :
    let config := smallConfig 3 (by decide) (by decide)
    let calls := recoverAll (loadTable config 1 [loadEntry config 4 1 16])
    ∃ s₀ l s₁ tr s₂, Started flatMemory.resolver calls s₀ ∧ Step s₀ l s₁ ∧ Run Step s₁ tr s₂ ∧
      Label.call l = (smallServices config (.error 1), stopMsg config 1) ∧
      tr.map (fun q => Label.call q.2) =
        [(smallServices config .success, jamMsg config 1 2 2 3 100),
          (smallServices config .success, wakeupMsg config)] ∧
      EveryState (fun s => Stopped (s.dwellTables 0) ∧ ReportedStopped 0 (hkStatus s).1.hkPkt)
        tr s₂ := by
  intro config calls
  obtain ⟨s₀, l, s₁, tr, s₂, h₀, stop, run, hk, hks, hc⟩ := flight_first flatMemory.resolver calls
    10 (blankState _) (smallServices config (.error 1), stopMsg config 1)
    [(smallServices config .success, jamMsg config 1 2 2 3 100),
      (smallServices config .success, wakeupMsg config)]
    (fun _ l tr _ => Stops l 0 ∧ EveryStep (fun _ l => Quiet 0 l) tr ∧
      EveryStep (EachStream (LoadAccepted flatMemory.resolver)) tr)
    (by decide +kernel)
  obtain ⟨stops, quiet, loads⟩ := of_decide_eq_true hc
  obtain ⟨hstate, -⟩ := stopped_stays_silent h₀ (.nil _) stop.any (run_any run) stops quiet
    everyStep_nil fun q hq t => ⟨_, loads q hq t⟩
  exact ⟨s₀, l, s₁, tr, s₂, h₀, stop, run, hk, hks, hstate⟩

end StoppedStreams
