import MemoryDwell.InitialCopies
import MemoryDwell.TableValidation
import MemoryDwell.WakeupEnds

/-! # The two summaries of a table

MD_ReadDwellTable sums up a table when it is validated, MD_UpdateDwellControlInfo its copy
in the control structure. The first decides on a warning, the second on what is dwelled. -/
namespace LoadSummary

open DwellData DwellUtils DwellTbl DwellPkts DwellStreams DwellTraces TableValidation
open InitialCopies WakeupEnds FueledLoop

variable {cfg : Config}

/-- MD_DwellLoop passes the table over: nothing is counted down, read or sent. -/
def PassedOver (svc : Services cfg) (t : TblIndex cfg) (pkt : DwellPkt cfg)
    (c : DwellPacketControl cfg) : Prop :=
  ∀ fuel q, dwellTable svc fuel t (.start c pkt) = some q → q = .start c pkt

theorem pass_changes {svc : Services cfg} {t : TblIndex cfg} {c : DwellPacketControl cfg}
    {pkt : DwellPkt cfg} {fuel : ℕ} {q : Pass cfg}
    (ha : c.enabled = dwellEnabled ∧ 0 < c.rate)
    (h : dwellTable svc fuel t (.start c pkt) = some q) : q ≠ .start c pkt := by
  rcases dwellTable_cases h with ⟨hoff, -⟩ | ⟨-, -, -, rfl⟩ | ⟨-, -, -, hw⟩
  · exact absurd ha hoff
  · intro he
    have hacts := congrArg Pass.actions he
    simp [sendFullPkt, sendDwellPkt] at hacts
  · have htrace : q = decrement (.start c pkt) ∨ q.actions ≠ [] := by
      refine (while_invariant (I := fun r : Pass cfg =>
        r = decrement (.start c pkt) ∨ r.actions ≠ []) ?_ (Or.inl rfl) hw).1
      intro r _ _
      right
      rw [dwellStep_actions]
      simp
    rintro rfl
    rcases htrace with hd | hacts
    · have hcount : c.countdown = if c.countdown = 0 then 4294967295 else c.countdown - 1 :=
        congrArg (fun r : Pass cfg => r.control.countdown) hd
      by_cases h0 : c.countdown = 0
      · rw [if_pos h0] at hcount
        omega
      · rw [if_neg h0] at hcount
        omega
    · exact hacts rfl

theorem passedOver_iff {c : DwellPacketControl cfg} (h : Driven c) (svc : Services cfg)
    (t : TblIndex cfg) (pkt : DwellPkt cfg) :
    PassedOver svc t pkt c ↔ ¬(c.enabled = dwellEnabled ∧ 0 < c.rate) := by
  constructor
  · intro hp ha
    obtain ⟨fuel, q, hq⟩ := dwellTable_ends svc t h pkt
    exact pass_changes ha hq (hp fuel q hq)
  · intro hoff fuel q hq
    rw [dwellTable_off svc fuel t hoff] at hq
    exact (Option.some.inj hq).symm

theorem zeroRate_reported {r : Resolver} {tbl : DwellTableLoad cfg} (h : Accepted r tbl) :
    .zeroRateTblInf ∈ (tableValidationFunc r (some tbl)).2 ↔
      tbl.enabled = dwellEnabled ∧ (readDwellTable tbl).rate = 0 := by
  obtain ⟨hres, report, hev, -, hreport⟩ :=
    tableValidationFunc_entries (r := r) h.enabled h.terminated
  have hc : (checkTableEntries r tbl).firstErrorCode = .success := hres.symm.trans h
  have hnot : EventMsg.zeroRateTblInf ∉ (checkTableEntries r tbl).events := by
    obtain ⟨good, bad, unused, -, hcases⟩ := checkTableEntries_cases r tbl
    rcases hcases with ⟨-, -, he⟩ | ⟨i, -, -, -, he⟩ <;> simp [he]
  rw [hev, List.mem_append, or_iff_right hnot, hreport hc]
  split_ifs with hz
  · exact iff_of_true List.mem_cons_self hz
  · exact iff_of_false List.not_mem_nil hz

theorem update_update (c : DwellPacketControl cfg) :
    updateDwellControlInfo (updateDwellControlInfo c) = updateDwellControlInfo c := rfl

/-- The copy has the totals that were read from the table, counting them again changes
nothing, and of the valid tables that are enabled those are passed over, wherever their
stream stands, that validation warned of. -/
theorem summaries_agree (hN : cfg.dwellTableSize ≤ 255) (r : Resolver)
    (tbl : DwellTableLoad cfg) (c : DwellPacketControl cfg) :
    ∃ c', (∀ fuel, cfg.dwellTableSize < fuel → copyUpdatedTbl r fuel tbl c = some c') ∧
      (⟨c'.addrCount, c'.dataSize, c'.rate⟩ : Totals) = readDwellTable tbl ∧
      updateDwellControlInfo c' = c' ∧
      (Accepted r tbl → tbl.enabled = dwellEnabled →
        ∀ d, SameContents c' d → ∀ svc t pkt,
          (.zeroRateTblInf ∈ (tableValidationFunc r (some tbl)).2 ↔ PassedOver svc t pkt d)) := by
  have htotals : summary (updateDwellControlInfo (copiedUpTo r tbl c cfg.dwellTableSize)) =
      readDwellTable tbl :=
    summary_update (fun i hi => lengths_copied r tbl c hi) fun i hi => delays_copied r tbl c hi
  refine ⟨updateDwellControlInfo (copiedUpTo r tbl c cfg.dwellTableSize),
    fun fuel hf => copyUpdatedTbl_eq r tbl c hN hf, htotals, update_update _, ?_⟩
  intro ha he d hd svc t pkt
  have hrate : d.rate = (readDwellTable tbl).rate := by
    rw [← htotals, ← summary_of_contents hd]
    rfl
  have henabled : d.enabled = dwellEnabled := by
    rw [hd.enabled, updateDwellControlInfo_enabled, copiedUpTo, he]
    rfl
  rw [zeroRate_reported ha, passedOver_iff ((driven_update _).of_contents hd), hrate]
  simp [he, henabled]

theorem summaries_agree_small :
    let config := smallConfig 3 (by decide) (by decide)
    let tbl := loadTable config 1 [loadEntry config 4 0 16]
    ∃ c', copyUpdatedTbl flatMemory.resolver 10 tbl (DwellApp.zeroControl config) = some c' ∧
      c'.addrCount = 1 ∧
      PassedOver (smallServices config .success) 0 (DwellApp.initMsg config) c' := by
  intro config tbl
  obtain ⟨c', hcopy, htotals, -, hwarn⟩ :=
    summaries_agree (by decide) flatMemory.resolver tbl (DwellApp.zeroControl config)
  have ha : Accepted flatMemory.resolver tbl := by decide +kernel
  refine ⟨c', hcopy 10 (by decide), ?_, ?_⟩
  · exact (congrArg Totals.addrCount htotals).trans (by decide +kernel)
  · exact (hwarn ha rfl c' (.refl c') _ _ _).mp (by decide +kernel)

end LoadSummary
