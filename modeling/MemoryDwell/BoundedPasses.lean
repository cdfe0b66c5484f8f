import MemoryDwell.CyclicSums
import MemoryDwell.WakeupEnds

/-! # The work of one pass

The sampling loop walks around the active entries, from wherever the stream stands, and
stops at the first delay. A rate guarantees one within a round. -/
namespace BoundedPasses

open DwellData DwellUtils DwellPkts DwellTraces CyclicSums WakeupEnds FueledLoop

variable {cfg : Config}

/-- The entries that are sampled, in order. -/
def sampled (as : List (Action cfg)) : List ℕ :=
  as.filterMap fun
    | .sample _ entry _ _ _ => some entry
    | _ => none

def sent (as : List (Action cfg)) : List (DwellPkt cfg) :=
  as.filterMap fun
    | .sendDwell _ pkt => some pkt
    | _ => none

section Turn

variable (svc : Services cfg) (t : TblIndex cfg) (n : ℕ) (p : Pass cfg)

theorem dwellStep_sampled :
    sampled (dwellStep svc t n p).actions = sampled p.actions ++ [p.control.currentEntry] := by
  rw [dwellStep_actions]
  split_ifs <;> simp [sampled]

theorem dwellStep_sent :
    (sent (dwellStep svc t n p).actions).length =
      (sent p.actions).length + if p.control.currentEntry + 1 = n then 1 else 0 := by
  rw [dwellStep_actions]
  split_ifs <;> simp [sent]

end Turn

/-- After `k` turns from entry `start`. A packet goes out with each sample of the last entry. -/
structure Walked (c : DwellPacketControl cfg) (start k : ℕ) (q : Pass cfg) : Prop where
  contents : SameContents c q.control
  current : q.control.currentEntry = (start + k) % c.addrCount
  sampled_eq : sampled q.actions = around c.addrCount start k
  sent_eq : (sent q.actions).length = (around c.addrCount start k).count (c.addrCount - 1)
  undelayed : dwellDue q = true → ∀ j < k, (c.entry ((start + j) % c.addrCount)).delay = 0

theorem walked_turn (svc : Services cfg) (t : TblIndex cfg) {c : DwellPacketControl cfg}
    {start k : ℕ} {q : Pass cfg} (hn : 0 < c.addrCount) (hle : c.addrCount ≤ 65535)
    (h : Walked c start k q) (hdue : dwellDue q = true) :
    Walked c start (k + 1) (dwellStep svc t c.addrCount q) := by
  have hlt := Nat.mod_lt (start + k) hn
  constructor
  · rw [dwellStep_control]
    exact h.contents.trans (advance_contents _ _)
  · rw [dwellStep_control, advance_currentEntry hle (h.current ▸ hlt), h.current, ← Nat.add_assoc]
    exact (succ_mod_eq hn _).symm
  · rw [dwellStep_sampled, around_succ, h.sampled_eq, h.current]
  · rw [dwellStep_sent, around_succ, List.count_append, h.sent_eq, h.current, List.count_singleton]
    congr 1
    simp only [beq_iff_eq]
    split_ifs <;> omega
  · intro hdue' j hj
    rcases Nat.lt_succ_iff_lt_or_eq.mp hj with hj | rfl
    · exact h.undelayed hdue j hj
    · have h0 : (dwellStep svc t c.addrCount q).control.countdown = 0 := by
        simpa [dwellDue] using hdue'
      rw [dwellStep_control, advance_countdown, h.contents.entry, h.current] at h0
      exact UInt16.toNat_inj.mp h0

/-- With a delay `d` places ahead the loop is left after `d + 1` turns at the latest. -/
theorem walk_ends (svc : Services cfg) (t : TblIndex cfg) {c : DwellPacketControl cfg}
    {start d fuel : ℕ} {p : Pass cfg} (hd : d < c.addrCount) (hle : c.addrCount ≤ 65535)
    (hdelay : (c.entry ((start + d) % c.addrCount)).delay ≠ 0) (hp : Walked c start 0 p)
    (hf : c.addrCount < fuel) :
    ∃ q k, whileLoop dwellDue (dwellStep svc t c.addrCount) fuel p = some q ∧
      k ≤ c.addrCount ∧ Walked c start k q ∧ dwellDue q = false := by
  have hn : 0 < c.addrCount := Nat.zero_lt_of_lt hd
  -- The entry with the delay has not been sampled as long as the loop goes on.
  have ahead : ∀ k q, Walked c start k q → dwellDue q = true → k ≤ d := by
    intro k q hq hdue
    by_contra hk
    exact hdelay (hq.undelayed hdue d (by omega))
  have keep : ∀ q, (∃ k ≤ d + 1, Walked c start k q) → dwellDue q = true →
      (∃ k ≤ d + 1, Walked c start k (dwellStep svc t c.addrCount q)) ∧
      d + 1 - (sampled (dwellStep svc t c.addrCount q).actions).length <
        d + 1 - (sampled q.actions).length := by
    rintro q ⟨k, -, hq⟩ hdue
    have hk := ahead k q hq hdue
    have hnext := walked_turn svc t hn hle hq hdue
    refine ⟨⟨k + 1, by omega, hnext⟩, ?_⟩
    rw [hnext.sampled_eq, hq.sampled_eq, around_length, around_length]
    omega
  have hfirst : ∃ k ≤ d + 1, Walked c start k p := ⟨0, Nat.zero_le _, hp⟩
  obtain ⟨q, hq⟩ := while_variant (fun q : Pass cfg => d + 1 - (sampled q.actions).length) keep
    hfirst (show d + 1 - (sampled p.actions).length < fuel by omega)
  obtain ⟨⟨k, hk, hw⟩, hexit⟩ := while_invariant (fun q hq hdue => (keep q hq hdue).1) hfirst hq
  exact ⟨q, k, hq, by omega, hw, hexit⟩

structure Bounded (c : DwellPacketControl cfg) (q : Pass cfg) : Prop where
  once : (sampled q.actions).Nodup
  active : ∀ i ∈ sampled q.actions, i < c.addrCount
  turns : (sampled q.actions).length ≤ c.addrCount
  packets : (sent q.actions).length ≤ 1
  contents : SameContents c q.control
  waits : c.currentEntry < c.addrCount →
    1 ≤ q.control.countdown ∧ q.control.currentEntry < c.addrCount

theorem Walked.bounded {c : DwellPacketControl cfg} {k : ℕ} {q : Pass cfg}
    (h : Walked c c.currentEntry k q) (hn : 0 < c.addrCount) (hk : k ≤ c.addrCount)
    (hexit : dwellDue q = false) : Bounded c q := by
  have hnodup := around_nodup c.currentEntry hk
  refine ⟨h.sampled_eq ▸ hnodup, ?_, ?_, ?_, h.contents, ?_⟩
  · intro i hi
    rw [h.sampled_eq] at hi
    exact around_lt hn hi
  · rwa [h.sampled_eq, around_length]
  · rw [h.sent_eq]
    exact List.nodup_iff_count_le_one.mp hnodup _
  · intro _
    have h0 : q.control.countdown ≠ 0 := by simpa [dwellDue] using hexit
    rw [h.current]
    exact ⟨Nat.one_le_iff_ne_zero.mpr h0, Nat.mod_lt _ hn⟩

theorem sendFullPkt_bounded (t : TblIndex cfg) {c : DwellPacketControl cfg} (pkt : DwellPkt cfg)
    (hf : c.addrCount ≤ c.currentEntry) : Bounded c (sendFullPkt t (.start c pkt)) := by
  have hs : sampled (sendFullPkt t (.start c pkt)).actions = [] := rfl
  constructor
  · rw [hs]
    exact List.nodup_nil
  · rw [hs]
    intro i hi
    cases hi
  · rw [hs]
    exact Nat.zero_le _
  · exact le_rfl
  · exact ⟨rfl, rfl, rfl, rfl, rfl, rfl⟩
  · omega

theorem dwellTable_bounded (svc : Services cfg) (t : TblIndex cfg) {c : DwellPacketControl cfg}
    (hs : updateDwellControlInfo c = c) (he : c.enabled = dwellEnabled) (hr : 0 < c.rate)
    (pkt : DwellPkt cfg) :
    ∃ q, (∀ fuel, c.addrCount < fuel → dwellTable svc fuel t (.start c pkt) = some q) ∧
      Bounded c q := by
  by_cases hf : c.addrCount ≤ c.currentEntry
  · exact ⟨_, fun fuel _ => dwellTable_full svc fuel t ⟨he, hr⟩ hf, sendFullPkt_bounded t pkt hf⟩
  · have hcur : c.currentEntry < c.addrCount := Nat.lt_of_not_le hf
    have hdriven : Driven c := hs ▸ driven_update c
    have hle : c.addrCount ≤ 65535 := hdriven.bound.trans cfg.size_le
    obtain ⟨i, hi, hdelay⟩ := hdriven.delay (Nat.pos_iff_ne_zero.mp hr)
    obtain ⟨d, hd, rfl⟩ := exists_around c.currentEntry hi
    have hfirst : Walked c c.currentEntry 0 (decrement (.start c pkt)) := by
      refine ⟨⟨rfl, rfl, rfl, rfl, rfl, rfl⟩, ?_, rfl, rfl, fun _ j hj => absurd hj j.not_lt_zero⟩
      exact (Nat.mod_eq_of_lt hcur).symm
    obtain ⟨q, k, hq, hk, hw, hexit⟩ :=
      walk_ends svc t hd hle hdelay hfirst (Nat.lt_succ_self c.addrCount)
    refine ⟨q, ?_, hw.bounded (Nat.zero_lt_of_lt hcur) hk hexit⟩
    intro fuel hfuel
    rw [dwellTable_loop svc fuel t ⟨he, hr⟩ hcur]
    exact while_mono hfuel hq

/-- One table's turn of MD_DwellLoop, in any state of the others. Fuel counts the tests of
the loop condition, so that it bounds the number of iterations; of the state only the
table's control structure and its packet change, and the reports of failed reads. -/
theorem turn_bounded (svc : Services cfg) (t : TblIndex cfg) (w : Wakeup cfg)
    (hs : updateDwellControlInfo (w.state.dwellTables t) = w.state.dwellTables t)
    (he : (w.state.dwellTables t).enabled = dwellEnabled)
    (hr : 0 < (w.state.dwellTables t).rate) :
    ∃ q v, Bounded (w.state.dwellTables t) q ∧
      (∀ fuel, (w.state.dwellTables t).addrCount < fuel → dwellTurn svc fuel w t = some v) ∧
      v.actions = w.actions ++ q.actions ∧
      v.state = { w.state with
        dwellTables := Function.update w.state.dwellTables t q.control
        dwellPkt := Function.update w.state.dwellPkt t q.pkt
        events := w.state.events ++ q.events } := by
  obtain ⟨q, hq, hb⟩ := dwellTable_bounded svc t hs he hr (w.state.dwellPkt t)
  have hturn : ∀ fuel, (w.state.dwellTables t).addrCount < fuel → dwellTurn svc fuel w t = _ :=
    fun fuel hf => congrArg (Option.map _) (hq fuel hf)
  exact ⟨q, _, hb, hturn, rfl, rfl⟩

theorem turn_bounded_two :
    let config := smallConfig 3 (by decide) (by decide)
    let c : DwellPacketControl config := updateDwellControlInfo
      { DwellApp.zeroControl config with
        enabled := dwellEnabled
        countdown := 1
        currentEntry := 1
        entry := fun i => if i = 0 then ⟨4, 3, 16⟩ else if i = 1 then ⟨4, 0, 20⟩ else ⟨0, 0, 0⟩ }
    let s := (blankState config).setTable 0 c
    ∃ q v, Bounded c q ∧
      dwellTurn (smallServices config .success) 3 ⟨s, .success, []⟩ 0 = some v ∧
      v.actions = q.actions ∧ sampled v.actions = [1, 0] := by
  intro config c s
  obtain ⟨q, v, hb, hv, ha, -⟩ := turn_bounded (smallServices config .success) 0
    ⟨s, .success, []⟩ rfl rfl (by decide +kernel)
  refine ⟨q, v, hb, hv 3 (by decide +kernel), ha, ?_⟩
  have hrun : (dwellTurn (smallServices config .success) 3 ⟨s, .success, []⟩ 0).map
      (fun v => sampled v.actions) = some [1, 0] := by decide +kernel
  rw [hv 3 (by decide +kernel)] at hrun
  exact Option.some.inj hrun

end BoundedPasses
