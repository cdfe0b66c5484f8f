import MemoryDwell.TableHistories
import MemoryDwell.TruthfulTelemetry

/-! # Uploads by command

A table can be loaded, or built up entry by entry with Jam commands. The order of the
commands and what comes between them make no difference, and the result is the same. -/
namespace TableUploads

open DwellData DwellUtils DwellTbl DwellCmds DwellDispatch DwellRuns DwellStreams
open DwellTraces WorkingCopy InitialCopies TableHistories TruthfulTelemetry TransitionRuns
open Replay

variable {cfg : Config}

/-- A Jam command of the right length for entry `i` of table `t`, with what `e` says. -/
structure Uploads (t : TblIndex cfg) (i : ℕ) (e : TableLoadEntry cfg) (msg : Message cfg) :
    Prop where
  msgId : msg.msgId = .cmd
  fcnCode : msg.fcnCode = jamDwellCC
  size : msg.size = cfg.jamDwellCmdSize
  tableId : msg.jam.tableId.toNat = t + 1
  entryId : msg.jam.entryId.toNat = i + 1
  length : msg.jam.fieldLength = e.length
  contents : e.length ≠ 0 → msg.jam.dwellDelay = e.delay ∧ msg.jam.dwellAddress = e.dwellAddress

/-- The last of the steps meant for entry `i` uploads `e`. -/
def LastUpload (t : TblIndex cfg) (i : Fin cfg.dwellTableSize) (e : TableLoadEntry cfg)
    (ls : List (Label cfg)) : Prop :=
  ∃ earlier l later msg, ls = earlier ++ l :: later ∧ l.input = .message (some msg) ∧
    Uploads t i e msg ∧ ∀ k ∈ later, ¬ (Field.entry i).Meant (opOf k t)

/-- What a wakeup can see of two tables is the same: the active entries and the summary. -/
structure SameDwell (c d : DwellPacketControl cfg) : Prop where
  addrCount : c.addrCount = d.addrCount
  dataSize : c.dataSize = d.dataSize
  rate : c.rate = d.rate
  entry : ∀ i < c.addrCount, c.entry i = d.entry i

/-- The entry says what `e` says: both are null, or they have one length, delay and place,
the name ending in its field. -/
def Says (m : MemoryMap) (load e : TableLoadEntry cfg) : Prop :=
  load.length = e.length ∧
    (e.length ≠ 0 → load.delay = e.delay ∧ load.dwellAddress.symName.Terminated ∧
      m.resolve load.dwellAddress = m.resolve e.dwellAddress)

theorem wellFormed_jam {msg : Message cfg} (hc : msg.fcnCode = jamDwellCC)
    (hs : msg.size = cfg.jamDwellCmdSize) : wellFormed msg = true := by
  simp [wellFormed, searchCmdHndlrTbl, cmdHandlerTbl, hc, hs, jamDwellCC, noopCC, resetCntrsCC,
    startDwellCC, stopDwellCC]

theorem upload_op {m : MemoryMap} {l : Label cfg} {t : TblIndex cfg}
    {i : Fin cfg.dwellTableSize} {e : TableLoadEntry cfg} {msg : Message cfg}
    (hc : Cooperative m l.services l.input) (hi : l.input = .message (some msg))
    (hu : Uploads t i e msg) (hv : validTableEntry m.resolver i e = .success) :
    ∃ new load, opOf l t = .jam i new load true ∧ Says m load e := by
  have hop : opOf l t = jamOp l.services msg.jam t := by
    have h3 : jamDwellCC ≠ startDwellCC ∧ jamDwellCC ≠ stopDwellCC := by decide
    simp only [opOf, hi, hu.msgId, cmdOp, wellFormed_jam hu.fcnCode hu.size, if_true, hu.fcnCode,
      h3.1, h3.2, if_false]
  have hgrant : decide (Granted l.services t) = true := decide_eq_true (hc.granted t)
  have hid : validEntryId cfg msg.jam.entryId = true := by
    have := i.isLt
    simp only [validEntryId, hu.entryId, Bool.and_eq_true, decide_eq_true_eq]
    omega
  have hplace : msg.jam.entryId.toNat - 1 = i := by rw [hu.entryId, Nat.add_sub_cancel]
  have htable : tableIndex cfg msg.jam.tableId = some t := tableIndex_eq_some.mpr hu.tableId
  by_cases h0 : e.length = 0
  · have hw : jamWrite l.services msg.jam =
        some (nullControlEntry, ⟨0, 0, nullDwellAddress cfg⟩) := by
      rw [jamWrite, if_neg (not_not.mpr hid), if_pos (hu.length.trans h0)]
    refine ⟨nullControlEntry, ⟨0, 0, nullDwellAddress cfg⟩, ?_, h0.symm, fun h => absurd h0 h⟩
    rw [hop, jamOp, if_pos htable, hw, hplace, hgrant]
  · have hlen : msg.jam.fieldLength ≠ 0 := fun h => h0 (hu.length.symm.trans h)
    obtain ⟨hdelay, haddr⟩ := hu.contents h0
    obtain ⟨a, hr, hd⟩ := ((validTableEntry_map m i e).mp hv).resolve_left h0
    have hend : msg.jam.dwellAddress.symName.Terminated := hc.payload msg hi hu.fcnCode
    have hname := hc.strings _ hend
    obtain ⟨behind, hfixed⟩ := hc.fixed
    have hok : jamChecks l.services msg.jam = .ok a := by
      rw [jamChecks_reader hfixed hlen, resolveAt_terminated m _ hend, haddr, hu.length]
      exact ⟨hr, hd⟩
    refine ⟨⟨msg.jam.fieldLength, msg.jam.dwellDelay, a⟩, ⟨msg.jam.fieldLength,
      msg.jam.dwellDelay, msg.jam.dwellAddress.offset,
      l.services.messageStringGet msg.jam.dwellAddress.symName⟩, ?_, hu.length,
      fun _ => ⟨hdelay, ?_, ?_⟩⟩
    · rw [hop, jamOp, if_pos htable, jamWrite, if_neg (not_not.mpr hid), if_neg hlen, hok, hplace,
        hgrant]
    · rw [← CharField.cstr_length_lt_iff, hname]
      exact CharField.cstr_length_lt hend
    · rw [← haddr]
      exact resolve_congr m rfl hname

theorem lastUpload_buffer {m : MemoryMap} {s s' : State cfg} {tr : List (State cfg × Label cfg)}
    {t : TblIndex cfg} {i : Fin cfg.dwellTableSize} {e : TableLoadEntry cfg}
    (run : Run AnyStep s tr s')
    (hc : EveryStep (fun _ l => Cooperative m l.services l.input) tr)
    (hv : validTableEntry m.resolver i e = .success)
    (hu : LastUpload t i e (tr.map Prod.snd)) : Says m ((s'.tblBuffer t).entry i) e := by
  obtain ⟨earlier, l, later, msg, htr, hi, hmsg, hlater⟩ := hu
  have hmem : l ∈ tr.map Prod.snd := by
    rw [htr]
    exact List.mem_append_right _ List.mem_cons_self
  obtain ⟨q, hq, rfl⟩ := List.mem_map.mp hmem
  obtain ⟨new, load, hop, hsays⟩ := upload_op (hc q hq) hi hmsg hv
  have hlast := buffered_run run t (.entry i)
  rw [htr, lastWrite_written (v := load)] at hlast
  · have hentry : (s'.tblBuffer t).entry i = load := hlast
    rwa [hentry]
  · rw [hop]
    exact if_pos rfl
  · intro k hk
    by_contra hn
    exact hlater k hk (meant_of_write (r := m.resolver) fun h => hn h.2)

section Table

variable {m : MemoryMap} {tbl b : DwellTableLoad cfg}

theorem activeLength_same
    (h : ∀ i : Fin cfg.dwellTableSize, i ≤ activeLength cfg (loadLengths tbl) →
      Says m (b.entry i) (tbl.entry i)) :
    activeLength cfg (loadLengths b) = activeLength cfg (loadLengths tbl) := by
  have hle := activeLength_le cfg (loadLengths tbl)
  apply activeLength_unique hle
  · intro i hi
    have hlen : loadLengths b i = loadLengths tbl i := (h ⟨i, by omega⟩ hi.le).1
    rw [hlen]
    exact active_ne_zero hi
  · intro hlt
    have hlen : loadLengths b _ = loadLengths tbl _ := (h ⟨_, hlt⟩ le_rfl).1
    rw [hlen]
    exact active_stops hlt

theorem readDwellTable_eq (b : DwellTableLoad cfg) :
    readDwellTable b = ⟨activeLength cfg (loadLengths b),
      lengthSum (loadLengths b) (activeLength cfg (loadLengths b)) % 65536,
      delaySum (loadDelays b) (activeLength cfg (loadLengths b)) % 4294967296⟩ :=
  sumLoop_eq cfg.size_le _ _

theorem readDwellTable_same
    (h : ∀ i : Fin cfg.dwellTableSize, i ≤ activeLength cfg (loadLengths tbl) →
      Says m (b.entry i) (tbl.entry i)) : readDwellTable b = readDwellTable tbl := by
  have hle := activeLength_le cfg (loadLengths tbl)
  have hactive := activeLength_same h
  have hsize : lengthSum (loadLengths b) (activeLength cfg (loadLengths tbl)) =
      lengthSum (loadLengths tbl) (activeLength cfg (loadLengths tbl)) :=
    lengthSum_congr fun i hi => (h ⟨i, hi.trans_le hle⟩ hi.le).1
  have hrate : delaySum (loadDelays b) (activeLength cfg (loadLengths tbl)) =
      delaySum (loadDelays tbl) (activeLength cfg (loadLengths tbl)) :=
    delaySum_congr fun i hi => ((h ⟨i, hi.trans_le hle⟩ hi.le).2 (active_ne_zero hi)).1
  rw [readDwellTable_eq, readDwellTable_eq, hactive, hsize, hrate]

theorem accepted_same (ha : Accepted m.resolver tbl)
    (h : ∀ i : Fin cfg.dwellTableSize, i ≤ activeLength cfg (loadLengths tbl) →
      Says m (b.entry i) (tbl.entry i))
    (he : b.enabled = dwellDisabled ∨ b.enabled = dwellEnabled) (hs : b.signature.Terminated) :
    Accepted m.resolver b := by
  have hle := activeLength_le cfg (loadLengths tbl)
  refine (accepted_iff _ _).mpr ⟨he, hs, ?_⟩
  intro i hi
  have hi' : i < activeLength cfg (loadLengths tbl) := (activeLength_same h) ▸ hi
  obtain ⟨hlen, hrest⟩ := h ⟨i, hi'.trans_le hle⟩ hi'.le
  have h0 : (tbl.entry i).length ≠ 0 := active_ne_zero hi'
  have hv := ((accepted_iff _ _).mp ha).2.2 i hi'
  obtain ⟨a, hr, hd⟩ := ((validTableEntry_map m i _).mp hv).resolve_left h0
  refine (validTableEntry_map m i _).mpr (Or.inr ⟨a, (hrest h0).2.2.trans hr, ?_⟩)
  rwa [hlen]

theorem sameDwell_adopt {x : Stream cfg} (hx : Agrees (m.inField cfg) x)
    (ha : Accepted m.resolver tbl)
    (h : ∀ i : Fin cfg.dwellTableSize, i ≤ activeLength cfg (loadLengths tbl) →
      Says m (x.buffer.entry i) (tbl.entry i)) (d : DwellPacketControl cfg) (pkt : DwellPkt cfg) :
    SameDwell x.control (adopt m.resolver tbl d) := by
  have hcopy : Agrees m.resolver ⟨adopt m.resolver tbl d, pkt, tbl⟩ :=
    recovered_agrees (resolver_foundBy m) ha d pkt
  have htotals : summary x.control = summary (adopt m.resolver tbl d) :=
    hx.totals.trans ((readDwellTable_same h).trans hcopy.totals.symm)
  obtain ⟨hcount, hsize, hrate⟩ := Totals.mk.inj htotals
  refine ⟨hcount, hsize, hrate, fun i hi => ?_⟩
  have hle := activeLength_le cfg (loadLengths tbl)
  have hactive : (adopt m.resolver tbl d).addrCount = activeLength cfg (loadLengths tbl) :=
    (Totals.mk.inj (hcopy.totals.trans (readDwellTable_eq tbl))).1
  have hi' : i < activeLength cfg (loadLengths tbl) := by
    rwa [← hactive, ← hcount]
  have hsz : i < cfg.dwellTableSize := hi'.trans_le hle
  obtain ⟨hlen, hrest⟩ := h ⟨i, hsz⟩ hi'.le
  have h0 : (tbl.entry i).length ≠ 0 := active_ne_zero hi'
  obtain ⟨hdelay, hend, haddr⟩ := hrest h0
  have hv := ((accepted_iff _ _).mp ha).2.2 i hi'
  obtain ⟨a, hr, -⟩ := ((validTableEntry_map m i _).mp hv).resolve_left h0
  have hlen' : (x.buffer.entry i).length ≠ 0 := fun hz => h0 (hlen.symm.trans hz)
  have hplace := hx.inStep.address i hsz hlen' 0 a
    ((inField_found m i _ 0 a).mpr ⟨hend, haddr.trans hr⟩)
  have hplace' := hcopy.inStep.address i hsz h0 0 a ((resolveSymAddr_found _ i _ 0 a).mpr hr)
  have hl := (hx.inStep.length i hsz).trans (hlen.trans (hcopy.inStep.length i hsz).symm)
  have hd := (hx.inStep.delay i hsz).trans (hdelay.trans (hcopy.inStep.delay i hsz).symm)
  calc x.control.entry i
      = ⟨(x.control.entry i).length, (x.control.entry i).delay, a⟩ := by rw [← hplace]
    _ = ⟨((adopt m.resolver tbl d).entry i).length, ((adopt m.resolver tbl d).entry i).delay,
          a⟩ := by rw [hl, hd]
    _ = (adopt m.resolver tbl d).entry i := by rw [← hplace']

end Table

theorem jamMsg_cooperative (config : Config) (tableId entryId length delay : UInt16)
    (offset : ℕ) :
    Cooperative flatMemory (smallServices config .success)
      (jamMsg config tableId entryId length delay offset) := by
  apply smallServices_cooperative
  · intro msg h
    obtain rfl := Option.some.inj (Input.message.inj h)
    exact CharField.zeros_terminated config.path_pos
  · simp [jamMsg]

end TableUploads
