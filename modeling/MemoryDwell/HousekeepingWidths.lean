import MemoryDwell.DwellTraces

/-! # What housekeeping reports of the streams

Rate and countdown are `uint32` in the control structure and `uint16` in the packet. The
other fields have their own width there. -/
namespace HousekeepingWidths

open DwellData DwellUtils DwellTbl DwellPkts DwellCmds DwellApp DwellRuns DwellStreams
open StreamInit DwellTraces FueledLoop TransitionRuns

variable {cfg : Config}

/-- The six fields of a table in the packet that MD_HkStatus builds. -/
structure Reported (s : State cfg) (t : TblIndex cfg) : Prop where
  dwellTblAddrCount : (hkStatus s).1.hkPkt.dwellTblAddrCount t = (s.dwellTables t).addrCount
  numWaitsPerPkt : (hkStatus s).1.hkPkt.numWaitsPerPkt t = (s.dwellTables t).rate
  dwellPktOffset : (hkStatus s).1.hkPkt.dwellPktOffset t = (s.dwellTables t).pktOffset
  byteCount : (hkStatus s).1.hkPkt.byteCount t = (s.dwellTables t).dataSize
  dwellTblEntry : (hkStatus s).1.hkPkt.dwellTblEntry t = (s.dwellTables t).currentEntry
  countdown : (hkStatus s).1.hkPkt.countdown t = (s.dwellTables t).countdown

/-- The two fields that lose their upper half. -/
def FitsHk (c : DwellPacketControl cfg) : Prop := c.rate < 65536 ∧ c.countdown < 65536

instance (c : DwellPacketControl cfg) : Decidable (FitsHk c) :=
  inferInstanceAs (Decidable (_ ∧ _))

theorem reported_iff_fits (s : State cfg) (t : TblIndex cfg) :
    Reported s t ↔ FitsHk (s.dwellTables t) := by
  constructor
  · intro h
    exact ⟨(Nat.mod_eq_iff_lt (by decide)).mp h.numWaitsPerPkt,
      (Nat.mod_eq_iff_lt (by decide)).mp h.countdown⟩
  · rintro ⟨hr, hc⟩
    exact ⟨rfl, Nat.mod_eq_of_lt hr, rfl, rfl, rfl, Nat.mod_eq_of_lt hc⟩

def loadRate (tbl : DwellTableLoad cfg) : ℕ :=
  delaySum (loadDelays tbl) (activeLength cfg (loadLengths tbl))

def controlRate (c : DwellPacketControl cfg) : ℕ :=
  delaySum (delays c) (activeLength cfg (lengths c))

/-- A copied update or an accepted Jam leaves delays whose sum fits, and a wakeup that is
about to count down for an entry finds something to count. -/
def KeepsWidth (l : Label cfg) (t : TblIndex cfg) (x : Stream cfg) : Prop :=
  match opOf l t with
  | .load tbl true => loadRate tbl < 65536
  | .jam e new _ true => controlRate (written x.control e new) < 65536
  | .pass => x.control.enabled = dwellEnabled → 0 < x.control.rate →
      x.control.currentEntry < x.control.addrCount → x.control.countdown ≠ 0
  | _ => True

instance (l : Label cfg) (t : TblIndex cfg) (x : Stream cfg) : Decidable (KeepsWidth l t x) := by
  unfold KeepsWidth
  induction opOf l t using StreamOp.byAnswer <;> infer_instance

theorem rate_update (c : DwellPacketControl cfg) :
    (updateDwellControlInfo c).rate = controlRate c := by
  rw [updateDwellControlInfo_eq]
  rfl

theorem controlRate_copied (r : Resolver) (tbl : DwellTableLoad cfg)
    (c : DwellPacketControl cfg) :
    controlRate (copiedUpTo r tbl c cfg.dwellTableSize) = loadRate tbl := by
  rw [controlRate, loadRate, activeLength_copied]
  apply delaySum_congr
  intro i hi
  exact delays_copied r tbl c (hi.trans_le (activeLength_le cfg _))

theorem fits_adopt_iff (r : Resolver) (tbl : DwellTableLoad cfg) {c : DwellPacketControl cfg}
    (hc : c.countdown < 65536) : FitsHk (adopt r tbl c) ↔ loadRate tbl < 65536 := by
  rw [FitsHk, (adopt_contents r tbl c).rate, rate_update, controlRate_copied]
  apply and_iff_left
  rw [adopt]
  split_ifs
  · exact Nat.one_lt_succ_succ _
  · exact hc

theorem fits_pass_iff {svc : Services cfg} {fuel : ℕ} {t : TblIndex cfg} {p q : Pass cfg}
    (h : dwellTable svc fuel t p = some q) (hp : FitsHk p.control) :
    FitsHk q.control ↔ (p.control.enabled = dwellEnabled → 0 < p.control.rate →
      p.control.currentEntry < p.control.addrCount → p.control.countdown ≠ 0) := by
  have hrate : q.control.rate = p.control.rate := (dwellTable_contents h).rate
  rw [FitsHk, hrate, and_iff_right hp.1]
  rcases dwellTable_cases h with ⟨hoff, rfl⟩ | ⟨-, -, hf, rfl⟩ | ⟨he, hr, hc, hloop⟩
  · exact iff_of_true hp.2 fun he hr => absurd ⟨he, hr⟩ hoff
  · refine iff_of_true ?_ fun _ _ hc => absurd hc (Nat.not_lt.mpr hf)
    exact UInt16.toNat_lt _
  · simp only [he, hr, hc, forall_const]
    constructor
    · intro hq h0
      -- The decrement wraps, and the loop is not entered.
      have hwrap : (decrement p).control.countdown = 4294967295 := if_pos h0
      have hexit : dwellDue (decrement p) = false := by simp [dwellDue, hwrap]
      have hq' : q = decrement p := while_deterministic hloop (while_exit hexit 0)
      rw [hq', hwrap] at hq
      exact absurd hq (by decide)
    · intro h0
      refine (while_invariant (I := fun p : Pass cfg => p.control.countdown < 65536) ?_ ?_
        hloop).1
      · intro r _ _
        rw [dwellStep_control, advance_countdown]
        exact UInt16.toNat_lt _
      · have := hp.2
        simp only [decrement, if_neg h0]
        omega

theorem fits_move {l : Label cfg} {t : TblIndex cfg} {x y : Stream cfg} (hx : FitsHk x.control)
    (m : StreamMove l t x y) : FitsHk y.control ↔ KeepsWidth l t x := by
  have hs := m.step
  simp only [KeepsWidth]
  cases hop : opOf l t with
  | idle =>
    rw [hop] at hs
    exact iff_of_true (hs.1 ▸ hx) trivial
  | start granted =>
    rw [hop] at hs
    exact iff_of_true (hs.1 ▸ ⟨hx.1, Nat.one_lt_succ_succ _⟩) trivial
  | stop granted =>
    rw [hop] at hs
    exact iff_of_true (hs.1 ▸ ⟨hx.1, Nat.succ_pos _⟩) trivial
  | jam e new load granted =>
    rw [hop] at hs
    obtain ⟨rfl, -⟩ := hs
    cases granted with
    | true =>
      apply Iff.trans (and_iff_left hx.2)
      exact iff_of_eq (congrArg (· < 65536) (rate_update (written x.control e new)))
    | false => exact iff_of_true hx trivial
  | sign signature granted =>
    rw [hop] at hs
    exact iff_of_true (hs.1 ▸ hx) trivial
  | load tbl copied =>
    rw [hop] at hs
    obtain ⟨rfl, -⟩ := hs
    cases copied with
    | true => exact fits_adopt_iff _ tbl hx.2
    | false => exact iff_of_true hx trivial
  | pass =>
    rw [hop] at hs
    obtain ⟨fuel, p, hp, rfl, -⟩ := hs
    exact fits_pass_iff hp hx

theorem started_fits_iff {r : Resolver} {calls : InitCalls cfg} {s : State cfg}
    (h : Started r calls s) (t : TblIndex cfg) :
    FitsHk (s.dwellTables t) ↔
      (Recovers r calls t → loadRate (calls.recovered t) < 65536) := by
  have h1 : (initialControl cfg).countdown < 65536 := Nat.one_lt_succ_succ _
  rw [started_control h t]
  split_ifs with hr
  · rw [fits_adopt_iff r _ h1, forall_prop_of_true hr]
  · refine iff_of_true ⟨?_, h1⟩ fun hr' => absurd hr' hr
    rw [rate_update, controlRate, activeLength_eq_zero rfl]
    exact Nat.succ_pos _

/-- Housekeeping reports all six fields throughout a run exactly when the delays of the
recovered tables fit and every step keeps the widths. -/
theorem housekeeping_exact {r : Resolver} {calls : InitCalls cfg} {s₀ s : State cfg}
    {tr : List (State cfg × Label cfg)} (h₀ : Started r calls s₀) (run : Run AnyStep s₀ tr s) :
    EveryState (fun s => ∀ t, Reported s t) tr s ↔
      (∀ t, Recovers r calls t → loadRate (calls.recovered t) < 65536) ∧
        EveryStep (EachStream KeepsWidth) tr := by
  have hstart : AllStreams (fun x => FitsHk x.control) s₀ ↔
      ∀ t, Recovers r calls t → loadRate (calls.recovered t) < 65536 :=
    forall_congr' (started_fits_iff h₀)
  have hexact : AllStreams (fun x => FitsHk x.control) s₀ →
      (EveryState (AllStreams fun x => FitsHk x.control) tr s ↔
        EveryStep (EachStream KeepsWidth) tr) :=
    run_streams_exact (A := fun _ _ _ => True) (J := fun _ => True)
      (fun _ _ _ _ _ _ _ => trivial) (fun _ _ _ _ _ hp _ hx m => (fits_move hx m).mpr hp)
      (fun _ h => h) (fun _ _ _ _ _ _ hx m hy => (fits_move hx m).mp hy) run
      (fun _ _ _ => trivial) (fun _ => trivial)
  have hreport : ∀ s : State cfg, (∀ t, Reported s t) ↔ AllStreams (fun x => FitsHk x.control) s :=
    fun s => forall_congr' (reported_iff_fits s)
  rw [← hstart]
  constructor
  · intro h
    have hall := h.imp fun s => (hreport s).mp
    exact ⟨run.first hall, (hexact (run.first hall)).mp hall⟩
  · rintro ⟨hs, hp⟩
    exact ((hexact hs).mpr hp).imp fun s => (hreport s).mpr

namespace Counterexample

def config : Config := threeEntries

def calls : InitCalls config :=
  recoverAll (loadTable config 1 [loadEntry config 4 65535 16, loadEntry config 4 65535 20])

end Counterexample

/-- Housekeeping reports a rate of 131070 wakeups as 65534. -/
theorem long_rate_misreported :
    ∃ s, Started flatMemory.resolver Counterexample.calls s ∧ (s.dwellTables 0).rate = 131070 ∧
      (hkStatus s).1.hkPkt.numWaitsPerPkt 0 = 65534 ∧ ¬ Reported s 0 := by
  obtain ⟨s₀, tr, s, h₀, -, -, hc⟩ := flight_run flatMemory.resolver Counterexample.calls 10
    (blankState _) [] (fun s _ _ => (s.dwellTables 0).rate = 131070 ∧
      (hkStatus s).1.hkPkt.numWaitsPerPkt 0 = 65534) (by decide +kernel)
  obtain ⟨hrate, hk⟩ := of_decide_eq_true hc
  refine ⟨s₀, h₀, hrate, hk, fun h => ?_⟩
  have hsame := h.numWaitsPerPkt
  rw [hrate, hk] at hsame
  exact absurd hsame (by decide)

theorem housekeeping_exact_run :
    let config := Counterexample.config
    let svc := smallServices config .success
    let calls := recoverAll (loadTable config 1 [loadEntry config 4 2 16])
    ∃ s₀ tr s, Started flatMemory.resolver calls s₀ ∧ Run Step s₀ tr s ∧
      tr.map (fun q => Label.call q.2) =
        [(svc, wakeupMsg config), (svc, jamMsg config 1 2 1 65533 20), (svc, wakeupMsg config)] ∧
      EveryState (fun s => ∀ t, Reported s t) tr s := by
  intro config svc calls
  obtain ⟨s₀, tr, s, h₀, run, hk, hc⟩ := flight_run flatMemory.resolver calls 10 (blankState _)
    [(svc, wakeupMsg config), (svc, jamMsg config 1 2 1 65533 20), (svc, wakeupMsg config)]
    (fun _ tr _ => (∀ t, Recovers flatMemory.resolver calls t →
      loadRate (calls.recovered t) < 65536) ∧ EveryStep (EachStream KeepsWidth) tr)
    (by decide +kernel)
  exact ⟨s₀, tr, s, h₀, run, hk, (housekeeping_exact h₀ (run_any run)).mpr (of_decide_eq_true hc)⟩

end HousekeepingWidths
