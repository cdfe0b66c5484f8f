import MemoryDwell.DwellTraces

/-! # Registers and table sizes

The configuration header admits tables of up to 65535 entries. The registers of the
summary, of the packet and of the copy loop are narrower than that in places. -/
namespace ConfigurationLimits

open DwellData DwellUtils DwellTbl DwellPkts DwellApp DwellTraces

variable {cfg : Config}

def fixedSize (cfg : Config) : ℕ := cfg.tlmHeaderSize + 8 + cfg.signatureFieldLength

def ExactTotals (cfg : Config) (totals : Totals) (length delay : ℕ → UInt16) : Prop :=
  let n := activeLength cfg length
  totals = ⟨n, lengthSum length n, delaySum delay n⟩

/-- The packet announces the active entries and their bytes, and has the size of both. -/
structure ExactPacket (pkt : DwellPkt cfg) (length : ℕ → UInt16) : Prop where
  addrCount : pkt.addrCount = activeLength cfg length
  byteCount : pkt.byteCount = lengthSum length (activeLength cfg length)
  size : pkt.size = fixedSize cfg + lengthSum length (activeLength cfg length)

theorem sumLoop_exact_iff (cfg : Config) (length delay : ℕ → UInt16) :
    ExactTotals cfg (sumLoop cfg.dwellTableSize length delay cfg.dwellTableSize 0 ⟨0, 0, 0⟩)
      length delay ↔ lengthSum length (activeLength cfg length) < 65536 := by
  have hd := delaySum_lt delay ((activeLength_le cfg length).trans cfg.size_le)
  rw [ExactTotals, sumLoop_eq cfg.size_le]
  simp only [Totals.mk.injEq]
  rw [← Nat.mod_eq_iff_lt (by decide : 65536 ≠ 0)]
  constructor
  · intro h
    exact h.2.1
  · intro h
    exact ⟨rfl, h, Nat.mod_eq_of_lt hd⟩

theorem fillDwellPkt_size (t : TblIndex cfg) (c : DwellPacketControl cfg) (pkt : DwellPkt cfg) :
    (fillDwellPkt t c pkt).size = (fixedSize cfg + c.dataSize) % 65536 := by
  have hfixed : dwellPktSizeof cfg - cfg.dwellTableSize * 4 = fixedSize cfg := by
    simp only [dwellPktSizeof, dataBytes, fixedSize]
    omega
  rw [fillDwellPkt, hfixed]

theorem sendDwellPkt_addrCount (t : TblIndex cfg) (p : Pass cfg) :
    (sendDwellPkt t p).pkt.addrCount = p.control.addrCount % 256 := rfl

theorem updateDwellControlInfo_addrCount (c : DwellPacketControl cfg) :
    (updateDwellControlInfo c).addrCount = activeLength cfg (lengths c) := by
  rw [updateDwellControlInfo_eq]

theorem packet_exact_iff (t : TblIndex cfg) (c : DwellPacketControl cfg) (pkt : DwellPkt cfg) :
    ExactPacket (fillDwellPkt t (updateDwellControlInfo c) pkt) (lengths c) ↔
      activeLength cfg (lengths c) < 256 ∧
        fixedSize cfg + lengthSum (lengths c) (activeLength cfg (lengths c)) < 65536 := by
  have hc := updateDwellControlInfo_eq c
  have hcount : (fillDwellPkt t (updateDwellControlInfo c) pkt).addrCount =
      activeLength cfg (lengths c) % 256 := by rw [hc]; rfl
  have hbytes : (fillDwellPkt t (updateDwellControlInfo c) pkt).byteCount =
      lengthSum (lengths c) (activeLength cfg (lengths c)) % 65536 := by rw [hc]; rfl
  have hsize : (fillDwellPkt t (updateDwellControlInfo c) pkt).size =
      (fixedSize cfg + lengthSum (lengths c) (activeLength cfg (lengths c)) % 65536) % 65536 := by
    rw [fillDwellPkt_size, hc]
  constructor
  · rintro ⟨h, -, hs⟩
    rw [hcount, Nat.mod_eq_iff_lt (by decide)] at h
    rw [hsize, Nat.add_mod_mod, Nat.mod_eq_iff_lt (by decide)] at hs
    exact ⟨h, hs⟩
  · rintro ⟨h, hs⟩
    refine ⟨?_, ?_, ?_⟩
    · rw [hcount, Nat.mod_eq_of_lt h]
    · rw [hbytes, Nat.mod_eq_of_lt (by omega)]
    · rw [hsize, Nat.add_mod_mod, Nat.mod_eq_of_lt hs]

structure ExactArithmetic (c : DwellPacketControl cfg) (tbl : DwellTableLoad cfg)
    (pkt : DwellPkt cfg) : Prop where
  update : ExactTotals cfg
    ⟨(updateDwellControlInfo c).addrCount, (updateDwellControlInfo c).dataSize,
      (updateDwellControlInfo c).rate⟩ (lengths c) (delays c)
  read : ExactTotals cfg (readDwellTable tbl) (loadLengths tbl) (loadDelays tbl)
  packet : ExactPacket pkt (lengths c)

/-- It is exact just as long as the count and the sizes fit the registers. -/
theorem arithmetic_exact_iff (c : DwellPacketControl cfg) (tbl : DwellTableLoad cfg)
    (t : TblIndex cfg) (pkt : DwellPkt cfg) :
    ExactArithmetic c tbl (sendDwellPkt t (.start (updateDwellControlInfo c) pkt)).pkt ↔
      activeLength cfg (lengths c) < 256 ∧
        fixedSize cfg + lengthSum (lengths c) (activeLength cfg (lengths c)) < 65536 ∧
        lengthSum (loadLengths tbl) (activeLength cfg (loadLengths tbl)) < 65536 := by
  constructor
  · rintro ⟨-, hread, hpacket⟩
    obtain ⟨hn, hs⟩ := (packet_exact_iff t c pkt).mp hpacket
    exact ⟨hn, hs, (sumLoop_exact_iff cfg _ _).mp hread⟩
  · rintro ⟨hn, hs, hread⟩
    have hsum : lengthSum (lengths c) (activeLength cfg (lengths c)) < 65536 := by omega
    exact ⟨(sumLoop_exact_iff cfg _ _).mpr hsum, (sumLoop_exact_iff cfg _ _).mpr hread,
      (packet_exact_iff t c pkt).mpr ⟨hn, hs⟩⟩

namespace Counterexample

def config : Config := manyEntries

def control : DwellPacketControl config :=
  { zeroControl config with entry := fun _ => ⟨1, 1, 16⟩ }

def tbl : DwellTableLoad config := ⟨0, .zeros _, fun _ => loadEntry config 1 1 16⟩

theorem activeLength_control : activeLength config (lengths control) = 256 := by
  apply activeLength_unique (Nat.le_refl 256)
  · intro i _
    change (1 : UInt16) ≠ 0
    decide
  · intro h
    exact absurd h (Nat.lt_irrefl 256)

end Counterexample

theorem packet_count_wraps :
    (updateDwellControlInfo Counterexample.control).addrCount = 256 ∧
    (sendDwellPkt 0 (.start (updateDwellControlInfo Counterexample.control)
      (initMsg Counterexample.config))).pkt.addrCount = 0 ∧
    ¬ ExactArithmetic Counterexample.control Counterexample.tbl
      (sendDwellPkt 0 (.start (updateDwellControlInfo Counterexample.control)
        (initMsg Counterexample.config))).pkt := by
  have hn := Counterexample.activeLength_control
  have hcount : (updateDwellControlInfo Counterexample.control).addrCount = 256 := by
    rw [updateDwellControlInfo_addrCount, hn]
  have hpkt : (sendDwellPkt 0 (.start (updateDwellControlInfo Counterexample.control)
      (initMsg Counterexample.config))).pkt.addrCount = 0 := by
    rw [sendDwellPkt_addrCount, start_control, hcount]
  refine ⟨hcount, hpkt, fun h => ?_⟩
  have hexact := h.packet.addrCount
  rw [hpkt, hn] at hexact
  exact absurd hexact (by decide)

/-- MD_CopyUpdatedTbl, which writes one of the control structures. -/
def copyIntoTable (r : Resolver) (fuel : ℕ) (tbl : DwellTableLoad cfg) (t : TblIndex cfg)
    (s : State cfg) : Option (State cfg) :=
  (copyUpdatedTbl r fuel tbl (s.dwellTables t)).map (s.setTable t)

structure Copied (tbl : DwellTableLoad cfg) (t : TblIndex cfg) (s s' : State cfg) : Prop where
  length : ∀ i < cfg.dwellTableSize, ((s'.dwellTables t).entry i).length = (tbl.entry i).length
  delay : ∀ i < cfg.dwellTableSize, ((s'.dwellTables t).entry i).delay = (tbl.entry i).delay
  others : ∀ u ≠ t, s'.dwellTables u = s.dwellTables u

/-- The copy ends, and is complete, in tables of at most 255 entries and in no others. -/
theorem copy_completes_iff (r : Resolver) (tbl : DwellTableLoad cfg) (t : TblIndex cfg)
    (s : State cfg) :
    (∃ fuel s', copyIntoTable r fuel tbl t s = some s' ∧ Copied tbl t s s') ↔
      cfg.dwellTableSize ≤ 255 := by
  constructor
  · rintro ⟨fuel, s', h, -⟩
    rw [copyIntoTable, Option.map_eq_some_iff] at h
    obtain ⟨c, hc, -⟩ := h
    exact (copyUpdatedTbl_some hc).1
  · intro hn
    have hcopy := copyUpdatedTbl_eq r tbl (s.dwellTables t) hn (Nat.lt_succ_self _)
    refine ⟨cfg.dwellTableSize + 1, _, by rw [copyIntoTable, hcopy, Option.map_some], ?_⟩
    refine ⟨fun i hi => ?_, fun i hi => ?_, fun u hu => State.setTable_ne s t u _ hu⟩
    · rw [State.setTable_self]
      exact lengths_copied r tbl _ hi
    · rw [State.setTable_self]
      exact delays_copied r tbl _ hi

/-- With 256 entries the eight-bit index starts over before it reaches the end. -/
theorem copy_never_ends :
    Counterexample.config.dwellTableSize = 256 ∧ ∀ fuel,
      copyIntoTable flatMemory.resolver fuel Counterexample.tbl 0
        (blankState Counterexample.config) = none := by
  refine ⟨rfl, fun fuel => ?_⟩
  rw [copyIntoTable, copyUpdatedTbl_diverges _ _ _ le_rfl, Option.map_none]

end ConfigurationLimits
