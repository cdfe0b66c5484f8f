import MemoryDwell.DwellTraces

/-! # Every wakeup ends

The sampling loop of a table is left at the first entry with a delay. That one of the
active entries has a delay is what `Rate > 0` stands for, as long as the two have not
drifted apart. -/
namespace WakeupEnds

open DwellData DwellUtils DwellTbl DwellPkts DwellApp DwellRuns DwellStreams StreamInit
open DwellTraces FueledLoop TransitionRuns

variable {cfg : Config}

/-- A rate is backed by the delay of an active entry. -/
structure Driven (c : DwellPacketControl cfg) : Prop where
  bound : c.addrCount ≤ cfg.dwellTableSize
  delay : c.rate ≠ 0 → ∃ i < c.addrCount, (c.entry i).delay ≠ 0

theorem Driven.of_contents {c d : DwellPacketControl cfg} (h : Driven c)
    (hcd : SameContents c d) : Driven d := by
  constructor
  · rw [hcd.addrCount]
    exact h.bound
  · rw [hcd.rate, hcd.addrCount, hcd.entry]
    exact h.delay

theorem driven_update (c : DwellPacketControl cfg) : Driven (updateDwellControlInfo c) := by
  rw [updateDwellControlInfo_eq]
  constructor
  · exact activeLength_le cfg _
  · intro hr
    obtain ⟨i, hi, hd⟩ := PrefixSums.sum_range_pos_iff.mp (Nat.pos_of_ne_zero hr)
    refine ⟨i, hi, fun h0 => hd ?_⟩
    rw [delays, show (c.entry i).delay = 0 from h0]
    rfl

/-- The number of entries to go from `cur` to `i`, around the end of the table. -/
def distance (n i cur : ℕ) : ℕ := if cur ≤ i then i - cur else i + n - cur

/-- Entry `i` has a delay: the turns still to come, at most. -/
def turnsLeft (n i : ℕ) (p : Pass cfg) : ℕ :=
  if p.control.countdown = 0 then distance n i p.control.currentEntry + 1 else 0

theorem turn_closer (svc : Services cfg) (t : TblIndex cfg) {p : Pass cfg} {n i : ℕ}
    (hn : n ≤ 65535) (hi : i < n) (hd : (p.control.entry i).delay ≠ 0)
    (hc : p.control.currentEntry < n) (hdue : dwellDue p = true) :
    (dwellStep svc t n p).control.currentEntry < n ∧
      turnsLeft n i (dwellStep svc t n p) < turnsLeft n i p := by
  have h0 : p.control.countdown = 0 := by simpa [dwellDue] using hdue
  rw [turnsLeft, turnsLeft, if_pos h0, dwellStep_control, advance_countdown]
  refine ⟨advance_currentEntry_lt hn hc, ?_⟩
  by_cases hcur : p.control.currentEntry = i
  · have hd0 : (p.control.entry i).delay.toNat ≠ 0 := fun h => hd (UInt16.toNat_inj.mp h)
    rw [hcur, if_neg hd0]
    exact Nat.succ_pos _
  · rw [advance_currentEntry hn hc]
    simp only [distance]
    split_ifs <;> omega

theorem dwellTable_ends (svc : Services cfg) (t : TblIndex cfg) {c : DwellPacketControl cfg}
    (h : Driven c) (pkt : DwellPkt cfg) :
    ∃ fuel q, dwellTable svc fuel t (.start c pkt) = some q := by
  by_cases ha : c.enabled = dwellEnabled ∧ 0 < c.rate
  · by_cases hf : c.addrCount ≤ c.currentEntry
    · exact ⟨0, _, dwellTable_full svc 0 t ha hf⟩
    · obtain ⟨i, hi, hd⟩ := h.delay (Nat.pos_iff_ne_zero.mp ha.2)
      have hn : c.addrCount ≤ 65535 := h.bound.trans cfg.size_le
      have hter : Terminates dwellDue (dwellStep svc t c.addrCount) (decrement (.start c pkt)) := by
        refine terminates_of_variant
          (I := fun p => p.control.entry = c.entry ∧ p.control.currentEntry < c.addrCount)
          (turnsLeft c.addrCount i) ?_ ⟨rfl, Nat.lt_of_not_le hf⟩
        rintro p ⟨he, hc⟩ hdue
        obtain ⟨hc', hm⟩ := turn_closer svc t hn hi (by rwa [he]) hc hdue
        refine ⟨⟨?_, hc'⟩, hm⟩
        rw [dwellStep_control, (advance_contents _ _).entry, he]
      obtain ⟨fuel, q, hq⟩ := hter
      exact ⟨fuel, q, (dwellTable_loop svc fuel t ha (Nat.lt_of_not_le hf)).trans hq⟩
  · exact ⟨0, _, dwellTable_off svc 0 t ha⟩

/-- With all delays gone the loop is never left. -/
theorem dwellTable_never_ends (svc : Services cfg) (t : TblIndex cfg) {c : DwellPacketControl cfg}
    (he : c.enabled = dwellEnabled) (hr : 0 < c.rate) (hn : c.addrCount ≤ cfg.dwellTableSize)
    (hc : c.currentEntry < c.addrCount) (hcount : c.countdown = 1)
    (hd : ∀ i < c.addrCount, (c.entry i).delay = 0) (pkt : DwellPkt cfg) (fuel : ℕ) :
    dwellTable svc fuel t (.start c pkt) = none := by
  rw [dwellTable_loop svc fuel t ⟨he, hr⟩ hc, start_control]
  apply while_diverges (D := fun p => p.control.countdown = 0 ∧ p.control.entry = c.entry ∧
    p.control.currentEntry < c.addrCount)
  · rintro p ⟨h0, hen, hcur⟩
    rw [dwellStep_control]
    refine ⟨by simp [dwellDue, h0], ?_, ?_, advance_currentEntry_lt (hn.trans cfg.size_le) hcur⟩
    · rw [advance_countdown, hen, hd _ hcur]
      rfl
    · rw [(advance_contents _ _).entry, hen]
  · exact ⟨by simp [decrement, hcount], rfl, hc⟩

/-- A refused Jam must leave a delay among the active entries: its own, or another one. -/
def RateBacked (l : Label cfg) (t : TblIndex cfg) (x : Stream cfg) : Prop :=
  match opOf l t with
  | .jam e new _ false =>
    x.control.rate = 0 ∨ x.control.addrCount ≤ e ∨ new.delay ≠ 0 ∨
      ∃ i < x.control.addrCount, i ≠ e ∧ (x.control.entry i).delay ≠ 0
  | _ => True

instance (l : Label cfg) (t : TblIndex cfg) (x : Stream cfg) : Decidable (RateBacked l t x) := by
  unfold RateBacked
  induction opOf l t using StreamOp.byAnswer <;> infer_instance

theorem driven_written {c : DwellPacketControl cfg} (h : Driven c) {e : ℕ}
    {new : DwellControlEntry}
    (hb : c.rate = 0 ∨ c.addrCount ≤ e ∨ new.delay ≠ 0 ∨
      ∃ i < c.addrCount, i ≠ e ∧ (c.entry i).delay ≠ 0) : Driven (written c e new) := by
  refine ⟨h.bound, fun hr => ?_⟩
  have other : ∀ i, i ≠ e → ((written c e new).entry i).delay = (c.entry i).delay := by
    intro i hi
    simp [written, hi]
  obtain ⟨i, hi, hd⟩ := h.delay hr
  rcases hb with h0 | hle | hnew | ⟨j, hj, hje, hdj⟩
  · exact absurd h0 hr
  · have hlt : i < c.addrCount := hi
    exact ⟨i, hi, by rwa [other i (by omega)]⟩
  · by_cases hie : i = e
    · exact ⟨i, hi, by simpa [written, hie] using hnew⟩
    · exact ⟨i, hi, by rwa [other i hie]⟩
  · exact ⟨j, hj, by rwa [other j hje]⟩

theorem driven_move {l : Label cfg} {t : TblIndex cfg} {x y : Stream cfg}
    (hp : RateBacked l t x) (hx : Driven x.control) (m : StreamMove l t x y) :
    Driven y.control := by
  simp only [RateBacked] at hp
  rcases m.control_cases with h | ⟨_, -, h⟩ | ⟨_, -, h⟩ | ⟨e, new, load, -, h⟩ |
    ⟨e, new, load, hop, h⟩ | ⟨_, h⟩ | ⟨tbl, -, h⟩ | ⟨fuel, p, -, hpass, h⟩ <;> rw [h]
  · exact hx
  · exact ⟨hx.bound, hx.delay⟩
  · exact ⟨hx.bound, hx.delay⟩
  · exact driven_update _
  · rw [hop] at hp
    exact driven_written hx hp
  · exact ⟨hx.bound, hx.delay⟩
  · exact (driven_update _).of_contents (adopt_contents _ tbl x.control)
  · exact hx.of_contents (dwellTable_contents hpass)

theorem driven_started {r : Resolver} {calls : InitCalls cfg} {s : State cfg}
    (h : Started r calls s) (t : TblIndex cfg) : Driven (s.dwellTables t) := by
  rw [started_control h t]
  split_ifs with hr
  · exact (driven_update _).of_contents (adopt_contents r _ _)
  · exact driven_update _

/-- In every state of a run without a Jam that takes away the last delay, and whatever
memory and Table Services answer, a wakeup ends. -/
theorem wakeup_ends {r : Resolver} {calls : InitCalls cfg} {s₀ s : State cfg}
    {tr : List (State cfg × Label cfg)} (h₀ : Started r calls s₀) (run : Run AnyStep s₀ tr s)
    (backed : EveryStep (EachStream RateBacked) tr) :
    EveryState (fun s => ∀ svc, ∃ fuel w, dwellLoop svc fuel s = some w) tr s := by
  have hd := run_streams (J := fun x => Driven x.control)
    (fun _ _ _ _ hp hx m => driven_move hp hx m) run (driven_started h₀) backed
  exact hd.imp fun s hs svc => dwellLoop_total fun t => dwellTable_ends svc t (hs t) _

namespace Counterexample

def config : Config := threeEntries

def calls : InitCalls config := recoverAll (loadTable config 1 [loadEntry config 4 1 16])

def inputs : List (Services config × Input config) :=
  [(smallServices config (.error 1), jamMsg config 1 1 1 0 16)]

end Counterexample

/-- After that Jam the next wakeup never ends. -/
theorem refused_jam_hangs_wakeup :
    ∃ s₀ tr s, Started flatMemory.resolver Counterexample.calls s₀ ∧ Run Step s₀ tr s ∧
      tr.map (fun q => Label.call q.2) = Counterexample.inputs ∧
      ∀ svc fuel, dwellLoop svc fuel s = none := by
  obtain ⟨s₀, tr, s, h₀, run, hk, hc⟩ := flight_run flatMemory.resolver Counterexample.calls 10
    (blankState _) Counterexample.inputs
    (fun _ _ s => let c := s.dwellTables 0
      c.enabled = dwellEnabled ∧ 0 < c.rate ∧ c.addrCount ≤ 3 ∧ c.currentEntry < c.addrCount ∧
        c.countdown = 1 ∧ ∀ i < c.addrCount, (c.entry i).delay = 0)
    (by decide +kernel)
  obtain ⟨he, hr, hn, hcur, hcount, hd⟩ := of_decide_eq_true hc
  refine ⟨s₀, tr, s, h₀, run, hk, fun svc fuel => ?_⟩
  by_contra hne
  obtain ⟨w, hw⟩ := Option.ne_none_iff_exists'.mp hne
  obtain ⟨p, hp, -⟩ := dwellLoop_stream hw 0
  rw [dwellTable_never_ends svc 0 he hr hn hcur hcount hd] at hp
  cases hp

theorem wakeup_ends_run :
    ∃ s₀ tr s, Started flatMemory.resolver Counterexample.calls s₀ ∧ Run Step s₀ tr s ∧
      tr.map (fun q => Label.call q.2) =
        [(smallServices Counterexample.config (.error 1),
          jamMsg Counterexample.config 1 1 1 5 16),
        (smallServices Counterexample.config .success, wakeupMsg Counterexample.config)] ∧
      EveryState (fun s => ∀ svc, ∃ fuel w, dwellLoop svc fuel s = some w) tr s := by
  obtain ⟨s₀, tr, s, h₀, run, hk, hc⟩ := flight_run flatMemory.resolver Counterexample.calls 10
    (blankState _) [(smallServices _ (.error 1), jamMsg _ 1 1 1 5 16),
      (smallServices _ .success, wakeupMsg _)]
    (fun _ tr _ => EveryStep (EachStream RateBacked) tr) (by decide +kernel)
  exact ⟨s₀, tr, s, h₀, run, hk, wakeup_ends h₀ (run_any run) (of_decide_eq_true hc)⟩

end WakeupEnds
