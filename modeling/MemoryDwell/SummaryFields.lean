import MemoryDwell.DwellTraces

/-! # The summary of a dwell table

`AddrCount`, `DataSize` and `Rate` are a cache of the entries. It is recomputed after a
copy and after a Jam that Table Services accepted. A refused Jam has already written its
entry, and the cache stays as it was. -/
namespace SummaryFields

open DwellData DwellUtils DwellTbl DwellPkts DwellApp DwellRuns DwellStreams StreamInit
open DwellTraces TransitionRuns

variable {cfg : Config}

/-- The fields are the exact values, not those that `uint16` would leave of them. -/
structure Summarised (c : DwellPacketControl cfg) : Prop where
  addrCount : c.addrCount = activeLength cfg (lengths c)
  dataSize : c.dataSize = lengthSum (lengths c) c.addrCount
  rate : c.rate = delaySum (delays c) c.addrCount

instance (c : DwellPacketControl cfg) : Decidable (Summarised c) :=
  decidable_of_iff (c.addrCount = activeLength cfg (lengths c) ∧
      c.dataSize = lengthSum (lengths c) c.addrCount ∧ c.rate = delaySum (delays c) c.addrCount)
    ⟨fun ⟨ha, hs, hr⟩ => ⟨ha, hs, hr⟩, fun ⟨ha, hs, hr⟩ => ⟨ha, hs, hr⟩⟩

/-- The size of the active entries fits its `uint16`. -/
def SizeFits (c : DwellPacketControl cfg) : Prop :=
  lengthSum (lengths c) (activeLength cfg (lengths c)) ≤ 65535

theorem summarised_update (c : DwellPacketControl cfg) :
    Summarised (updateDwellControlInfo c) ↔ SizeFits c := by
  rw [updateDwellControlInfo_eq]
  constructor
  · intro h
    have hd : lengthSum (lengths c) (activeLength cfg (lengths c)) % 65536 =
        lengthSum (lengths c) (activeLength cfg (lengths c)) := h.dataSize
    rw [SizeFits]
    omega
  · intro h
    exact ⟨rfl, Nat.mod_eq_of_lt (Nat.lt_succ_of_le h), rfl⟩

theorem Summarised.of_contents {c d : DwellPacketControl cfg} (h : Summarised c)
    (hcd : SameContents c d) : Summarised d := by
  have hl : lengths d = lengths c := by
    funext i
    exact congrArg DwellControlEntry.length (congrFun hcd.entry i)
  have hy : delays d = delays c := by
    funext i
    exact congrArg DwellControlEntry.delay (congrFun hcd.entry i)
  constructor
  · rw [hcd.addrCount, hl, h.addrCount]
  · rw [hcd.dataSize, hcd.addrCount, hl, h.dataSize]
  · rw [hcd.rate, hcd.addrCount, hy, h.rate]

/-- A refused write that the summary does not notice: behind the terminator, a null entry
on the terminator, or an active entry with its old length and delay. -/
def Harmless (c : DwellPacketControl cfg) (e : ℕ) (new : DwellControlEntry) : Prop :=
  c.addrCount < e ∨ e = c.addrCount ∧ new.length = 0 ∨
    e < c.addrCount ∧ new.length = (c.entry e).length ∧ new.delay = (c.entry e).delay

theorem Summarised.harmless {c : DwellPacketControl cfg} (h : Summarised c) {e : ℕ}
    {new : DwellControlEntry} (hh : Harmless c e new) : Summarised (written c e new) := by
  obtain ⟨ha, hs, hr⟩ := h
  have keep : ∀ k, k ≤ e → lengthSum (lengths (written c e new)) k =
      lengthSum (lengths c) k ∧
      delaySum (delays (written c e new)) k = delaySum (delays c) k := by
    intro k hk
    rw [lengths_written, delays_written]
    exact ⟨lengthSum_congr fun i hi => Function.update_of_ne (by omega) _ _,
      delaySum_congr fun i hi => Function.update_of_ne (by omega) _ _⟩
  rcases hh with hlt | ⟨he, h0⟩ | ⟨hlt, hl, hd⟩
  · refine ⟨?_, hs.trans (keep _ hlt.le).1.symm, hr.trans (keep _ hlt.le).2.symm⟩
    rw [lengths_written, activeLength_update_behind _ (ha ▸ hlt)]
    exact ha
  · refine ⟨?_, hs.trans (keep _ he.ge).1.symm, hr.trans (keep _ he.ge).2.symm⟩
    rw [lengths_written, h0, activeLength_update_null (by omega)]
    exact he.symm
  · have hle : Function.update (lengths c) e new.length = lengths c := by
      rw [hl]
      exact Function.update_eq_self e (lengths c)
    have hde : Function.update (delays c) e new.delay = delays c := by
      rw [hd]
      exact Function.update_eq_self e (delays c)
    refine ⟨?_, ?_, ?_⟩
    · rwa [lengths_written, hle]
    · rwa [lengths_written, hle]
    · rwa [delays_written, hde]

theorem harmless_of_summarised {c : DwellPacketControl cfg} (h : Summarised c) {e : ℕ}
    {new : DwellControlEntry} (he : e < cfg.dwellTableSize)
    (hw : Summarised (written c e new)) : Harmless c e new := by
  obtain ⟨ha, hs, hr⟩ := h
  obtain ⟨ha', hs', hr'⟩ := hw
  rw [lengths_written] at ha' hs'
  rw [delays_written] at hr'
  simp only [written] at ha' hs' hr'
  rcases Nat.lt_trichotomy c.addrCount e with hlt | heq | hgt
  · exact Or.inl hlt
  · refine Or.inr (Or.inl ⟨heq.symm, ?_⟩)
    by_contra h0
    have := activeLength_update_terminator h0 (ha.symm.trans heq) he
    omega
  · refine Or.inr (Or.inr ⟨hgt, ?_, ?_⟩)
    · have hu : _ + (c.entry e).length.toNat = _ :=
        lengthSum_update (l := lengths c) new.length hgt
      apply UInt16.toNat_inj.mp
      omega
    · have hu : _ + (c.entry e).delay.toNat = _ :=
        delaySum_update (l := delays c) new.delay hgt
      apply UInt16.toNat_inj.mp
      omega

/-- The size of the active entries of a load fits its `uint16`. -/
def LoadFits (tbl : DwellTableLoad cfg) : Prop :=
  lengthSum (loadLengths tbl) (activeLength cfg (loadLengths tbl)) ≤ 65535

theorem sizeFits_copied (r : Resolver) (tbl : DwellTableLoad cfg) (c : DwellPacketControl cfg) :
    SizeFits (copiedUpTo r tbl c cfg.dwellTableSize) ↔ LoadFits tbl := by
  have hl := activeLength_le cfg (loadLengths tbl)
  rw [SizeFits, LoadFits, activeLength_copied,
    lengthSum_congr fun i hi => lengths_copied r tbl c (show i < cfg.dwellTableSize by omega)]

theorem summarised_adopt (r : Resolver) (tbl : DwellTableLoad cfg) (c : DwellPacketControl cfg) :
    Summarised (adopt r tbl c) ↔ LoadFits tbl := by
  have hc := adopt_contents r tbl c
  rw [← sizeFits_copied r tbl c, ← summarised_update]
  exact ⟨fun h => h.of_contents hc.symm, fun h => h.of_contents hc⟩

theorem Accepted.loadFits {r : Resolver} {tbl : DwellTableLoad cfg} (h : Accepted r tbl)
    (hn : cfg.dwellTableSize ≤ 255) : LoadFits tbl := by
  have hl := activeLength_le cfg (loadLengths tbl)
  have hsum : lengthSum (loadLengths tbl) (activeLength cfg (loadLengths tbl)) ≤
      activeLength cfg (loadLengths tbl) * 4 := by
    apply PrefixSums.sum_range_le
    intro i hi
    have hv := ((accepted_iff r tbl).mp h).2.2 i hi
    rcases validTableEntry_length hv with h | h | h | h <;> simp [h]
  rw [LoadFits]
  omega

/-- The steps that leave the summary right: the sizes they make active fit, and a Jam that
is refused is one that changes nothing. -/
def SummaryKept (l : Label cfg) (t : TblIndex cfg) (x : Stream cfg) : Prop :=
  match opOf l t with
  | .load tbl true => LoadFits tbl
  | .jam e new _ true => SizeFits (written x.control e new)
  | .jam e new _ false => Harmless x.control e new
  | _ => True

theorem summarised_move {l : Label cfg} {t : TblIndex cfg} {x y : Stream cfg}
    (hx : Summarised x.control) (m : StreamMove l t x y) :
    Summarised y.control ↔ SummaryKept l t x := by
  have hs := m.step
  have hsound := m.sound
  simp only [SummaryKept]
  cases hop : opOf l t with
  | idle =>
    rw [hop] at hs
    obtain ⟨rfl, -⟩ := hs
    simpa using hx
  | start granted =>
    rw [hop] at hs
    obtain ⟨rfl, -⟩ := hs
    simpa using ⟨hx.addrCount, hx.dataSize, hx.rate⟩
  | stop granted =>
    rw [hop] at hs
    obtain ⟨rfl, -⟩ := hs
    simpa using ⟨hx.addrCount, hx.dataSize, hx.rate⟩
  | jam e new load granted =>
    rw [hop] at hs hsound
    obtain ⟨rfl, -⟩ := hs
    cases granted with
    | true => exact summarised_update (written x.control e new)
    | false => exact ⟨harmless_of_summarised hx hsound.2.1, hx.harmless⟩
  | sign signature granted =>
    rw [hop] at hs
    obtain ⟨rfl, -⟩ := hs
    simpa using ⟨hx.addrCount, hx.dataSize, hx.rate⟩
  | load tbl copied =>
    rw [hop] at hs
    obtain ⟨rfl, -⟩ := hs
    cases copied with
    | true => exact summarised_adopt _ tbl x.control
    | false => simpa [install] using hx
  | pass =>
    rw [hop] at hs
    obtain ⟨fuel, p, hp, rfl, -⟩ := hs
    simpa using hx.of_contents (dwellTable_contents hp)

theorem summarised_started {r : Resolver} {calls : InitCalls cfg} {s : State cfg}
    (h : Started r calls s) (t : TblIndex cfg) : Summarised (s.dwellTables t) := by
  rw [started_control h t]
  split_ifs with hr
  · exact (summarised_adopt r _ _).mpr (Accepted.loadFits hr.2.2 ((started_stream h t).1 hr))
  · rw [summarised_update, SizeFits, activeLength_eq_zero rfl]
    exact Nat.zero_le _

/-- The summary fields describe the entries throughout a run exactly when each of its
steps keeps them. -/
theorem summary_exact {r : Resolver} {calls : InitCalls cfg} {s₀ s : State cfg}
    {tr : List (State cfg × Label cfg)} (h₀ : Started r calls s₀) (run : Run AnyStep s₀ tr s) :
    EveryState (fun s => ∀ t, Summarised (s.dwellTables t)) tr s ↔
      EveryStep (EachStream SummaryKept) tr :=
  run_streams_exact (A := fun _ _ _ => True) (J := fun _ => True)
    (I := fun x => Summarised x.control) (Q := fun x => Summarised x.control)
    (fun _ _ _ _ _ _ _ => trivial) (fun _ _ _ _ _ hp _ hx m => (summarised_move hx m).mpr hp)
    (fun _ h => h) (fun _ _ _ _ _ _ hx m hy => (summarised_move hx m).mp hy) run
    (fun _ _ _ => trivial) (fun _ => trivial) (summarised_started h₀)

namespace Counterexample

def config : Config := threeEntries

def calls : InitCalls config := recoverAll (loadTable config 0 [loadEntry config 4 1 16])

def inputs : List (Services config × Input config) :=
  [(smallServices config (.error 1), jamMsg config 1 1 0 0 0)]

end Counterexample

/-- A refused Jam leaves a summary that no longer describes the entries. -/
theorem refused_jam_breaks_summary :
    ∃ s₀ tr s, Started flatMemory.resolver Counterexample.calls s₀ ∧ Run Step s₀ tr s ∧
      tr.map (fun q => Label.call q.2) = Counterexample.inputs ∧
      ¬ Summarised (s.dwellTables 0) := by
  obtain ⟨s₀, tr, s, h₀, run, hk, hc⟩ := flight_run flatMemory.resolver Counterexample.calls 10
    (blankState _) Counterexample.inputs (fun _ _ s => ¬ Summarised (s.dwellTables 0))
    (by decide +kernel)
  exact ⟨s₀, tr, s, h₀, run, hk, of_decide_eq_true hc⟩

theorem summary_exact_run :
    ∃ s₀ tr s, Started flatMemory.resolver Counterexample.calls s₀ ∧ Run Step s₀ tr s ∧
      tr.map (fun q => Label.call q.2) =
        [(smallServices Counterexample.config .success,
          jamMsg Counterexample.config 1 2 2 3 100)] ∧
      (EveryState (fun s => ∀ t, Summarised (s.dwellTables t)) tr s ↔
        EveryStep (EachStream SummaryKept) tr) := by
  obtain ⟨s₀, tr, s, h₀, run, hk, -⟩ := flight_run flatMemory.resolver Counterexample.calls 10
    (blankState _) [(smallServices _ .success, jamMsg _ 1 2 2 3 100)] (fun _ _ _ => true)
    (by decide +kernel)
  exact ⟨s₀, tr, s, h₀, run, hk, summary_exact h₀ (run_any run)⟩

end SummaryFields
