import MemoryDwell.WorkingCopy

/-! # Working copies after initialization

A recovered table is copied; a table file is loaded into the buffer and the local
structure, empty since the start, is taken for its copy. -/
namespace InitialCopies

open DwellData DwellUtils DwellTbl DwellPkts DwellApp DwellRuns DwellStreams StreamInit
open DwellTraces WorkingCopy

variable {cfg : Config}

def summary (c : DwellPacketControl cfg) : Totals := ⟨c.addrCount, c.dataSize, c.rate⟩

/-- In step, and the summary is that of the buffer. -/
structure Agrees (r : Resolver) (x : Stream cfg) : Prop where
  inStep : InStep r x
  totals : summary x.control = readDwellTable x.buffer

/-- A table that says nothing: disabled, not signed, and no lengths or delays. -/
structure Blank (tbl : DwellTableLoad cfg) : Prop where
  enabled : tbl.enabled = dwellDisabled
  signature : tbl.signature.cstr = []
  entry : ∀ i < cfg.dwellTableSize, (tbl.entry i).length = 0 ∧ (tbl.entry i).delay = 0

theorem summary_of_contents {c d : DwellPacketControl cfg} (h : SameContents c d) :
    summary d = summary c := by
  rw [summary, summary, h.addrCount, h.dataSize, h.rate]

theorem summary_update {c : DwellPacketControl cfg} {tbl : DwellTableLoad cfg}
    (hl : ∀ i < cfg.dwellTableSize, (c.entry i).length = (tbl.entry i).length)
    (hd : ∀ i < cfg.dwellTableSize, (c.entry i).delay = (tbl.entry i).delay) :
    summary (updateDwellControlInfo c) = readDwellTable tbl := by
  have hk : activeLength cfg (lengths c) = activeLength cfg (loadLengths tbl) :=
    activeLength_congr hl
  have hn := activeLength_le cfg (loadLengths tbl)
  have hsize : lengthSum (lengths c) (activeLength cfg (loadLengths tbl)) =
      lengthSum (loadLengths tbl) (activeLength cfg (loadLengths tbl)) :=
    lengthSum_congr fun i hi => hl i (hi.trans_le hn)
  have hrate : delaySum (delays c) (activeLength cfg (loadLengths tbl)) =
      delaySum (loadDelays tbl) (activeLength cfg (loadLengths tbl)) :=
    delaySum_congr fun i hi => hd i (hi.trans_le hn)
  have hlt := delaySum_lt (loadDelays tbl) (hn.trans cfg.size_le)
  rw [updateDwellControlInfo_eq, readDwellTable, sumLoop_eq cfg.size_le]
  simp only [summary, hk, hsize, hrate]
  exact congrArg _ (Nat.mod_eq_of_lt hlt).symm

theorem adopt_totals (r : Resolver) (tbl : DwellTableLoad cfg) (c : DwellPacketControl cfg) :
    summary (adopt r tbl c) = readDwellTable tbl := by
  rw [summary_of_contents (adopt_contents r tbl c)]
  exact summary_update (fun i hi => lengths_copied _ _ _ hi) fun i hi => delays_copied _ _ _ hi

theorem recovered_agrees {r r' : Resolver} (hr : FoundBy cfg r r') {tbl : DwellTableLoad cfg}
    (h : Accepted r' tbl) (c : DwellPacketControl cfg) (pkt : DwellPkt cfg) :
    Agrees r ⟨adopt r' tbl c, pkt, tbl⟩ := ⟨adopt_inStep hr h c pkt, adopt_totals r' tbl c⟩

theorem loaded_agrees (r : Resolver) (tbl : DwellTableLoad cfg) (pkt : DwellPkt cfg) :
    Agrees r ⟨updateDwellControlInfo { initialControl cfg with enabled := dwellDisabled },
      pkt, tbl⟩ ↔ Blank tbl := by
  constructor
  · rintro ⟨hs, -⟩
    refine ⟨hs.enabled.symm, ?_, fun i hi => ⟨(hs.length i hi).symm, (hs.delay i hi).symm⟩⟩
    exact hs.signature.symm.trans CharField.cstr_zeros
  · intro hb
    refine ⟨⟨⟨hb.enabled.symm, ?_, ?_, ?_⟩, ?_⟩, ?_⟩
    · exact CharField.cstr_zeros.trans hb.signature.symm
    · exact fun i hi => (hb.entry i hi).1.symm
    · exact fun i hi => (hb.entry i hi).2.symm
    · exact fun i hi h0 => absurd (hb.entry i hi).1 h0
    · exact summary_update (fun i hi => (hb.entry i hi).1.symm) fun i hi => (hb.entry i hi).2.symm

/-- After a successful initialization all working copies agree with their buffers exactly
if every table that was not recovered comes from a blank file. -/
theorem started_agrees_iff {m : MemoryMap} {calls : InitCalls cfg} {s : State cfg}
    (h : Started m.resolver calls s) :
    (∀ t, Agrees m.resolver (stream s t)) ↔
      ∀ t, Recovers m.resolver calls t ∨ Blank (calls.file t) := by
  apply forall_congr'
  intro t
  obtain ⟨-, buffer, hs⟩ := started_stream h t
  rw [hs, initStream]
  by_cases hr : Recovers m.resolver calls t
  · rw [if_pos hr]
    exact iff_of_true (recovered_agrees (resolver_foundBy m) hr.2.2 _ _) (Or.inl hr)
  · rw [if_neg hr, or_iff_right hr]
    exact loaded_agrees _ (calls.file t) _

namespace Counterexample

theorem one_le_tables : 1 ≤ 4 := by decide

def config : Config where
  numDwellTables := 4
  dwellTableSize := 25
  signatureFieldLength := 32
  maxPathLen := 64
  addrWidth := 32
  cmdHeaderSize := 8
  tlmHeaderSize := 12
  jamDwellCmdSize := 84
  tables_pos := one_le_tables
  tables_le := by decide
  size_pos := by decide
  size_le := by decide
  signature_aligned := rfl
  signature_min := by decide
  path_pos := by decide

def signatureText : List UInt8 := "Default Table 1".toList.map fun c => UInt8.ofNat c.toNat

/-- `MD_Default_Dwell1_Tbl`. -/
def defaultTable : DwellTableLoad config :=
  ⟨dwellDisabled, ⟨signatureText ++ List.replicate 17 0, by decide⟩,
    fun _ => loadEntry config 0 0 0⟩

def calls : InitCalls config where
  tableName _ := 15
  tblFileName _ := 15
  register _ := .success
  recovered _ := loadTable config 0 []
  getAddress _ := .success
  load _ := .success
  file _ := defaultTable

end Counterexample

/-- With the default table the buffer is signed and the working copy is not. -/
theorem default_table_not_copied :
    (∀ t, Accepted flatMemory.resolver (Counterexample.calls.file t)) ∧
    ∃ s, Started flatMemory.resolver Counterexample.calls s ∧
      ¬ ∀ t, Agrees flatMemory.resolver (stream s t) := by
  obtain ⟨s, -, -, hs, -, -, hc⟩ := flight_run flatMemory.resolver Counterexample.calls 30
    (blankState _) [] (fun s _ _ => (s.dwellTables 0).signature.cstr ≠
      (s.tblBuffer 0).signature.cstr) (by decide +kernel)
  refine ⟨by decide +kernel, s, hs, fun h => ?_⟩
  exact of_decide_eq_true hc (h 0).inStep.signature

theorem started_agrees_recovered :
    ∃ s, Started flatMemory.resolver (recoverAll Counterexample.defaultTable) s ∧
      ∀ t, Agrees flatMemory.resolver (stream s t) := by
  obtain ⟨s, -, -, hs, -, -, -⟩ := flight_run flatMemory.resolver
    (recoverAll Counterexample.defaultTable) 30 (blankState _) [] (fun _ _ _ => true)
    (by decide +kernel)
  refine ⟨s, hs, (started_agrees_iff hs).mpr fun t => Or.inl ⟨rfl, rfl, ?_⟩⟩
  show Accepted flatMemory.resolver Counterexample.defaultTable
  decide +kernel

end InitialCopies
