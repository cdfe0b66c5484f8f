import MemoryDwell.DwellTraces

/-! # The countdown of an active stream

Every writer of `Countdown` leaves at least one wakeup to wait, except the branch for a
packet that is already full: it takes the delay of the entry that a Jam made the last
one, whatever that delay is. -/
namespace CountdownRange

open DwellData DwellUtils DwellTbl DwellPkts DwellCmds DwellApp DwellRuns DwellStreams
open StreamInit DwellTraces FueledLoop TransitionRuns

variable {cfg : Config}

/-- The countdown of a stream with an entry to sample is at least one and a `uint16`. -/
def InRange (c : DwellPacketControl cfg) : Prop :=
  c.enabled = dwellEnabled → 0 < c.rate → c.currentEntry < c.addrCount →
    1 ≤ c.countdown ∧ c.countdown ≤ 65535

def Waiting (c : DwellPacketControl cfg) : Prop :=
  c.enabled = dwellEnabled → 1 ≤ c.countdown ∧ c.countdown ≤ 65535

def Backed (c : DwellPacketControl cfg) : Prop := 0 < c.rate → 0 < c.addrCount

/-- A wakeup that finds the packet already full restarts with a delay. -/
def RestartsWithDelay (l : Label cfg) (t : TblIndex cfg) (x : Stream cfg) : Prop :=
  match opOf l t with
  | .pass =>
    let c := x.control
    c.enabled = dwellEnabled → 0 < c.rate → c.addrCount ≤ c.currentEntry →
      (c.entry (c.addrCount - 1)).delay ≠ 0
  | _ => True

instance (c : DwellPacketControl cfg) : Decidable (InRange c) :=
  inferInstanceAs (Decidable (_ → _ → _ → _))

instance (l : Label cfg) (t : TblIndex cfg) (x : Stream cfg) :
    Decidable (RestartsWithDelay l t x) := by
  unfold RestartsWithDelay
  induction opOf l t using StreamOp.byAnswer <;> infer_instance

theorem one_le_toNat {d : UInt16} : 1 ≤ d.toNat ↔ d ≠ 0 := by
  rw [Nat.one_le_iff_ne_zero, ne_eq, ne_eq, ← UInt16.toNat_inj]
  rfl

theorem toNat_le (d : UInt16) : d.toNat ≤ 65535 := Nat.le_of_lt_succ d.toNat_lt

theorem sendFullPkt_countdown {t : TblIndex cfg} {p : Pass cfg} (h : 0 < p.control.addrCount) :
    (sendFullPkt t p).control.countdown =
      (p.control.entry (p.control.addrCount - 1)).delay.toNat := by
  have hl : ((p.control.addrCount : ℤ) - 1).toNat = p.control.addrCount - 1 := by omega
  simp [sendFullPkt, sendDwellPkt, hl]

theorem waiting_pass {svc : Services cfg} {fuel : ℕ} {t : TblIndex cfg} {p q : Pass cfg}
    (h : dwellTable svc fuel t p = some q) (hw : Waiting p.control) (hb : Backed p.control)
    (hr : p.control.enabled = dwellEnabled → 0 < p.control.rate →
      p.control.addrCount ≤ p.control.currentEntry →
      (p.control.entry (p.control.addrCount - 1)).delay ≠ 0) : Waiting q.control := by
  rcases dwellTable_cases h with ⟨-, rfl⟩ | ⟨he, hrate, hf, rfl⟩ | ⟨he, -, hc, hloop⟩
  · exact hw
  · intro _
    rw [sendFullPkt_countdown (hb hrate)]
    exact ⟨one_le_toNat.mpr (hr he hrate hf), toNat_le _⟩
  · obtain ⟨hlo, hhi⟩ := hw he
    -- Inside the loop the countdown is a delay, or what the decrement left.
    obtain ⟨hle, hex⟩ := while_invariant
      (I := fun p : Pass cfg => p.control.countdown ≤ 65535)
      (fun p _ _ => by
        rw [dwellStep_control, advance_countdown]
        exact toNat_le _)
      (by
        simp only [decrement]
        split_ifs <;> omega) hloop
    intro _
    have h0 : q.control.countdown ≠ 0 := by simpa [dwellDue] using hex
    exact ⟨Nat.one_le_iff_ne_zero.mpr h0, hle⟩

theorem backed_update (c : DwellPacketControl cfg) : Backed (updateDwellControlInfo c) := by
  rw [updateDwellControlInfo_eq]
  intro hr
  obtain ⟨i, hi, -⟩ := PrefixSums.sum_range_pos_iff.mp hr
  exact Nat.zero_lt_of_lt hi

theorem Backed.of_contents {c d : DwellPacketControl cfg} (h : Backed c)
    (hcd : SameContents c d) : Backed d := by
  intro hr
  rw [hcd.addrCount]
  rw [hcd.rate] at hr
  exact h hr

theorem backed_move {l : Label cfg} {t : TblIndex cfg} {x y : Stream cfg}
    (hx : Backed x.control) (m : StreamMove l t x y) : Backed y.control := by
  rcases m.control_cases with h | ⟨_, -, h⟩ | ⟨_, -, h⟩ | ⟨e, new, load, -, h⟩ |
    ⟨e, new, load, -, h⟩ | ⟨_, h⟩ | ⟨tbl, -, h⟩ | ⟨fuel, p, -, hpass, h⟩ <;> rw [h]
  · exact hx
  · exact hx
  · exact hx
  · exact backed_update _
  · exact hx
  · exact hx
  · exact (backed_update _).of_contents (adopt_contents _ tbl x.control)
  · exact hx.of_contents (dwellTable_contents hpass)

theorem waiting_adopt (r : Resolver) {tbl : DwellTableLoad cfg} (c : DwellPacketControl cfg)
    (he : tbl.enabled = dwellDisabled ∨ tbl.enabled = dwellEnabled) :
    Waiting (adopt r tbl c) := by
  intro hen
  rcases he with he | he
  · rw [(adopt_contents r tbl c).enabled] at hen
    simp [copiedUpTo, he, dwellDisabled, dwellEnabled] at hen
  · simp [adopt, he, startDwellStream]

theorem waiting_move {l : Label cfg} {t : TblIndex cfg} {x y : Stream cfg}
    (ha : ∃ r, LoadAccepted r l t x) (hp : RestartsWithDelay l t x) (hb : Backed x.control)
    (hx : Waiting x.control) (m : StreamMove l t x y) : Waiting y.control := by
  simp only [LoadAccepted] at ha
  simp only [RestartsWithDelay] at hp
  rcases m.control_cases with h | ⟨_, -, h⟩ | ⟨_, -, h⟩ | ⟨e, new, load, -, h⟩ |
    ⟨e, new, load, -, h⟩ | ⟨_, h⟩ | ⟨tbl, hop, h⟩ | ⟨fuel, p, hop, hpass, h⟩ <;> rw [h]
  · exact hx
  · exact fun _ => by simp [switchControl]
  · intro he
    simp [switchControl, dwellDisabled, dwellEnabled] at he
  · exact hx
  · exact hx
  · exact hx
  · rw [hop] at ha
    obtain ⟨r, ha⟩ := ha
    exact waiting_adopt _ x.control ha.enabled
  · rw [hop] at hp
    exact waiting_pass hpass hx hb hp

theorem restart_seen {l : Label cfg} {t : TblIndex cfg} {x y : Stream cfg} (hb : Backed x.control)
    (m : StreamMove l t x y) (hy : InRange y.control) : RestartsWithDelay l t x := by
  have hs := m.step
  rw [RestartsWithDelay]
  cases hop : opOf l t with
  | pass =>
    rw [hop] at hs
    obtain ⟨fuel, p, hp, rfl, -⟩ := hs
    intro he hr hf
    have hn := hb hr
    rw [dwellTable_full _ fuel t ⟨he, hr⟩ hf] at hp
    cases hp
    have hc := (hy he hr hn).1
    rwa [sendFullPkt_countdown hn, one_le_toNat] at hc
  | _ => trivial

theorem started_waiting {r : Resolver} {calls : InitCalls cfg} {s : State cfg}
    (h : Started r calls s) (t : TblIndex cfg) :
    Backed (s.dwellTables t) ∧ Waiting (s.dwellTables t) := by
  rw [started_control h t]
  split_ifs with hr
  · exact ⟨(backed_update _).of_contents (adopt_contents r _ _),
      waiting_adopt r _ hr.2.2.enabled⟩
  · refine ⟨backed_update _, fun he => ?_⟩
    simp [dwellDisabled, dwellEnabled] at he

/-- Countdowns stay in range throughout a run exactly when no full packet is followed by
an entry without delay. -/
theorem countdown_exact {r : Resolver} {calls : InitCalls cfg} {s₀ s : State cfg}
    {tr : List (State cfg × Label cfg)} (h₀ : Started r calls s₀) (run : Run AnyStep s₀ tr s)
    (loads : EveryStep (EachStream fun l t x => ∃ r, LoadAccepted r l t x) tr) :
    EveryState (fun s => ∀ t, InRange (s.dwellTables t)) tr s ↔
      EveryStep (EachStream RestartsWithDelay) tr :=
  run_streams_exact (J := fun x => Backed x.control) (I := fun x => Waiting x.control)
    (Q := fun x => InRange x.control) (fun _ _ _ _ _ hb m => backed_move hb m)
    (fun _ _ _ _ ha hp hb hx m => waiting_move ha hp hb hx m) (fun _ h he _ _ => h he)
    (fun _ _ _ _ _ hb _ m hy => restart_seen hb m hy) run loads
    (fun t => (started_waiting h₀ t).1) (fun t => (started_waiting h₀ t).2)

namespace Counterexample

def config : Config := smallConfig 4 (by decide) (by decide)

def tbl : DwellTableLoad config :=
  loadTable config 1
    [loadEntry config 1 1 16, loadEntry config 1 0 17, loadEntry config 1 1 18,
      loadEntry config 1 1 19]

def inputs : List (Services config × Input config) :=
  [(smallServices config .success, startMsg config 1),
    (smallServices config .success, wakeupMsg config),
    (smallServices config .success, wakeupMsg config),
    (smallServices config .success, jamMsg config 1 3 0 0 0),
    (smallServices config .success, wakeupMsg config)]

end Counterexample

/-- The stream that restarts behind an entry without delay has a countdown of zero. -/
theorem full_packet_zeroes_countdown :
    (∀ i < 4, validTableEntry flatMemory.resolver i (Counterexample.tbl.entry i) = .success) ∧
    ∃ s₀ tr s, Started flatMemory.resolver (recoverAll Counterexample.tbl) s₀ ∧
      Run Step s₀ tr s ∧ tr.map (fun q => Label.call q.2) = Counterexample.inputs ∧
      ¬ InRange (s.dwellTables 0) := by
  obtain ⟨s₀, tr, s, h₀, run, hk, hc⟩ := flight_run flatMemory.resolver
    (recoverAll Counterexample.tbl) 10 (blankState _) Counterexample.inputs
    (fun _ _ s => ¬ InRange (s.dwellTables 0)) (by decide +kernel)
  exact ⟨by decide +kernel, s₀, tr, s, h₀, run, hk, of_decide_eq_true hc⟩

theorem countdown_exact_run :
    ∃ s₀ tr s, Started flatMemory.resolver (recoverAll Counterexample.tbl) s₀ ∧
      Run Step s₀ tr s ∧ tr.map (fun q => Label.call q.2) = Counterexample.inputs.take 3 ∧
      (EveryState (fun s => ∀ t, InRange (s.dwellTables t)) tr s ↔
        EveryStep (EachStream RestartsWithDelay) tr) := by
  obtain ⟨s₀, tr, s, h₀, run, hk, hc⟩ := flight_run flatMemory.resolver
    (recoverAll Counterexample.tbl) 10 (blankState _) (Counterexample.inputs.take 3)
    (fun _ tr _ => EveryStep (EachStream (LoadAccepted flatMemory.resolver)) tr)
    (by decide +kernel)
  have loads := of_decide_eq_true hc
  exact ⟨s₀, tr, s, h₀, run, hk, countdown_exact h₀ (run_any run) fun q hq t => ⟨_, loads q hq t⟩⟩

end CountdownRange
