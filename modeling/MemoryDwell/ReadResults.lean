import MemoryDwell.WakeupEnds
import MemoryDwell.DwellTurns

/-! # The status of a wakeup

MD_DwellLoop returns an error if a read of any table failed. Which reads a wakeup makes is
a matter of the control structures alone: a table that is due takes its entries in turn,
up to and including the first one with a delay. -/
namespace ReadResults

open DwellData DwellUtils DwellPkts WakeupEnds FueledLoop

variable {cfg : Config}

/-- The countdown runs out at this wakeup. -/
structure Due (c : DwellPacketControl cfg) : Prop where
  active : c.enabled = dwellEnabled ∧ 0 < c.rate
  current : c.currentEntry < c.addrCount
  countdown : c.countdown = 1

instance (c : DwellPacketControl cfg) : Decidable (Due c) :=
  decidable_of_iff ((c.enabled = dwellEnabled ∧ 0 < c.rate) ∧ c.currentEntry < c.addrCount ∧
      c.countdown = 1)
    ⟨fun ⟨ha, hc, h1⟩ => ⟨ha, hc, h1⟩, fun ⟨ha, hc, h1⟩ => ⟨ha, hc, h1⟩⟩

/-- The entry of read number `k` of the wakeup. -/
def entryAt (c : DwellPacketControl cfg) (k : ℕ) : DwellControlEntry :=
  c.entry ((c.currentEntry + k) % c.addrCount)

/-- Read number `k` is made: no entry before it has a delay. -/
def Made (c : DwellPacketControl cfg) (k : ℕ) : Prop := ∀ j < k, (entryAt c j).delay = 0

instance (c : DwellPacketControl cfg) (k : ℕ) : Decidable (Made c k) :=
  inferInstanceAs (Decidable (∀ j < k, _))

/-- Read number `k` is of a length there is a read for, and memory answers it. -/
def ReadOk (svc : Services cfg) (t : TblIndex cfg) (c : DwellPacketControl cfg) (k : ℕ) : Prop :=
  let numBytes := (entryAt c k).length.toNat % 256
  (numBytes = 1 ∨ numBytes = 2 ∨ numBytes = 4) ∧
    (svc.memRead t k (entryAt c k).resolvedAddress numBytes).isSome = true

instance (svc : Services cfg) (t : TblIndex cfg) (c : DwellPacketControl cfg) (k : ℕ) :
    Decidable (ReadOk svc t c k) := inferInstanceAs (Decidable (_ ∧ _))

/-- All the reads of a wakeup on this table succeed. -/
def ReadsSucceed (svc : Services cfg) (t : TblIndex cfg) (c : DwellPacketControl cfg) : Prop :=
  Due c → ∀ k, Made c k → ReadOk svc t c k

/-- The wakeup stays in this table for good. -/
def Endless (c : DwellPacketControl cfg) : Prop :=
  Due c ∧ ∀ i < c.addrCount, (c.entry i).delay = 0

instance (c : DwellPacketControl cfg) : Decidable (Endless c) :=
  inferInstanceAs (Decidable (_ ∧ _))

theorem readStatus_success {numBytes : ℕ} {read : Option (ℕ → UInt8)} :
    readStatus numBytes read = .success ↔
      (numBytes = 1 ∨ numBytes = 2 ∨ numBytes = 4) ∧ read.isSome = true := by
  unfold readStatus
  split
  · cases read <;> simp [oneByteMemAddrReadErr]
  · cases read <;> simp [twoByteMemAddrReadErr]
  · cases read <;> simp [fourByteMemAddrReadErr]
  next h1 h2 h4 =>
    apply iff_of_false (by simp [invalidDwellAddrLen])
    rintro ⟨h | h | h, -⟩
    · exact h1 h
    · exact h2 h
    · exact h4 h

section Turn

variable (svc : Services cfg) (t : TblIndex cfg) (n : ℕ) (p : Pass cfg)

theorem dwellStep_reads : (dwellStep svc t n p).reads = p.reads + 1 := by
  simp only [dwellStep, getDwellData, sendDwellPkt]
  split_ifs <;> simp

theorem dwellStep_status :
    (dwellStep svc t n p).status = .success ↔ p.status = .success ∧
      readStatus ((p.control.entry p.control.currentEntry).length.toNat % 256)
        (svc.memRead t p.reads (p.control.entry p.control.currentEntry).resolvedAddress
          ((p.control.entry p.control.currentEntry).length.toNat % 256)) = .success := by
  simp only [dwellStep, getDwellData, sendDwellPkt, noteResult]
  split_ifs <;> simp_all

end Turn

theorem dwellDue_decrement (p : Pass cfg) :
    dwellDue (decrement p) = true ↔ p.control.countdown = 1 := by
  by_cases h0 : p.control.countdown = 0
  · simp [dwellDue, decrement, h0]
  · simp only [dwellDue, decrement, if_neg h0, decide_eq_true_eq]
    omega

/-- The pass has made `k` reads of the table `c`. -/
structure Reads (svc : Services cfg) (t : TblIndex cfg) (c : DwellPacketControl cfg) (k : ℕ)
    (p : Pass cfg) : Prop where
  entry : p.control.entry = c.entry
  current : p.control.currentEntry = (c.currentEntry + k) % c.addrCount
  reads : p.reads = k
  made : ∀ j < k, Made c j
  due : p.control.countdown = 0 ↔ Made c k
  status : p.status = .success ↔ ∀ j < k, ReadOk svc t c j

theorem made_succ {c : DwellPacketControl cfg} {k : ℕ} :
    Made c (k + 1) ↔ Made c k ∧ (entryAt c k).delay = 0 := by
  simp only [Made, Nat.lt_succ_iff_lt_or_eq, or_imp, forall_and, forall_eq]

theorem Made.of_le {c : DwellPacketControl cfg} {j k : ℕ} (h : Made c k) (hj : j ≤ k) : Made c j :=
  fun i hi => h i (by omega)

section Pass

variable {svc : Services cfg} {t : TblIndex cfg} {c : DwellPacketControl cfg}

theorem reads_start (h : Due c) (pkt : DwellPkt cfg) :
    Reads svc t c 0 (decrement (.start c pkt)) where
  entry := rfl
  current := (Nat.mod_eq_of_lt h.current).symm
  reads := rfl
  made := by simp
  due := iff_of_true (by simp [decrement, h.countdown]) (by simp [Made])
  status := iff_of_true rfl (by simp)

theorem reads_step (hn : c.addrCount ≤ 65535) (hpos : 0 < c.addrCount) {k : ℕ} {p : Pass cfg}
    (h : Reads svc t c k p) (hdue : dwellDue p = true) :
    Reads svc t c (k + 1) (dwellStep svc t c.addrCount p) := by
  have hmade : Made c k := h.due.mp (by simpa [dwellDue] using hdue)
  have hlt : p.control.currentEntry < c.addrCount := by
    rw [h.current]
    exact Nat.mod_lt _ hpos
  have hentry : p.control.entry p.control.currentEntry = entryAt c k := by
    rw [h.entry, h.current, entryAt]
  refine ⟨?_, ?_, ?_, ?_, ?_, ?_⟩
  · rw [dwellStep_control, (advance_contents _ _).entry, h.entry]
  · rw [dwellStep_control, advance_currentEntry hn hlt, h.current, ← Nat.add_assoc]
    exact (CyclicSums.succ_mod_eq hpos _).symm
  · rw [dwellStep_reads, h.reads]
  · intro j hj
    apply hmade.of_le
    omega
  · rw [dwellStep_control, advance_countdown, hentry, made_succ]
    exact (UInt16.toNat_inj (b := 0)).trans (and_iff_right hmade).symm
  · rw [dwellStep_status, h.status, hentry, h.reads, readStatus_success]
    simp only [Nat.lt_succ_iff_lt_or_eq, or_imp, forall_and, forall_eq]
    rfl

theorem dwellTable_status (hn : c.addrCount ≤ 65535) {fuel : ℕ} {pkt : DwellPkt cfg} {q : Pass cfg}
    (h : dwellTable svc fuel t (.start c pkt) = some q) :
    q.status = .success ↔ ReadsSucceed svc t c := by
  rcases dwellTable_cases h with ⟨hoff, rfl⟩ | ⟨-, -, hfull, rfl⟩ | ⟨he, hr, hc, hw⟩
  · exact iff_of_true rfl fun hd => absurd hd.active hoff
  · exact iff_of_true rfl fun hd => absurd hd.current (Nat.not_lt.mpr hfull)
  · by_cases h1 : c.countdown = 1
    · have hdue : Due c := ⟨⟨he, hr⟩, hc, h1⟩
      obtain ⟨⟨k, hk⟩, hexit⟩ := while_invariant (I := fun p => ∃ k, Reads svc t c k p)
        (fun _ ⟨_, hp⟩ hd => ⟨_, reads_step hn (Nat.zero_lt_of_lt hc) hp hd⟩)
        ⟨0, reads_start hdue pkt⟩ hw
      -- The reads made are those before the loop was left.
      have hlast : ¬ Made c k := fun hm => by simp [dwellDue, hk.due.mpr hm] at hexit
      have hmade : ∀ j, Made c j ↔ j < k := fun j =>
        ⟨fun hm => Nat.lt_of_not_le fun hle => hlast (hm.of_le hle), hk.made j⟩
      rw [hk.status]
      simp only [ReadsSucceed, hmade]
      exact ⟨fun hok _ => hok, fun hok => hok hdue⟩
    · have hstay := Bool.eq_false_iff.mpr (mt (dwellDue_decrement (.start c pkt)).mp h1)
      cases fuel with
      | zero => cases hw
      | succ fuel =>
        rw [while_exit hstay] at hw
        cases hw
        exact iff_of_true rfl fun hd => absurd hd.countdown h1

theorem dwellTable_ends_iff (hn : c.addrCount ≤ cfg.dwellTableSize) (pkt : DwellPkt cfg) :
    (∃ fuel q, dwellTable svc fuel t (.start c pkt) = some q) ↔ ¬ Endless c := by
  constructor
  · rintro ⟨fuel, q, hq⟩ ⟨hd, hdelay⟩
    rw [dwellTable_never_ends svc t hd.active.1 hd.active.2 hn hd.current hd.countdown hdelay]
      at hq
    cases hq
  · intro he
    by_cases hdelay : ∀ i < c.addrCount, (c.entry i).delay = 0
    · by_cases ha : c.enabled = dwellEnabled ∧ 0 < c.rate
      · by_cases hf : c.addrCount ≤ c.currentEntry
        · exact ⟨0, _, dwellTable_full svc 0 t ha hf⟩
        · have h1 : c.countdown ≠ 1 := fun h1 => he ⟨⟨ha, Nat.lt_of_not_le hf, h1⟩, hdelay⟩
          have hstay := Bool.eq_false_iff.mpr (mt (dwellDue_decrement (.start c pkt)).mp h1)
          exact ⟨1, _,
            (dwellTable_loop svc 1 t ha (Nat.lt_of_not_le hf)).trans (while_exit hstay 0)⟩
      · exact ⟨0, _, dwellTable_off svc 0 t ha⟩
    · push Not at hdelay
      exact dwellTable_ends svc t ⟨hn, fun _ => hdelay⟩ pkt

end Pass

section Wakeup

variable {svc : Services cfg} {s : State cfg}

theorem dwellLoop_status (hn : ∀ t, (s.dwellTables t).addrCount ≤ 65535) {fuel : ℕ}
    {w : Wakeup cfg} (h : dwellLoop svc fuel s = some w) :
    w.status = .success ↔ ∀ t, ReadsSucceed svc t (s.dwellTables t) := by
  -- A turn finds its table as the wakeup found it.
  have turns : ∀ l : List (TblIndex cfg), l.Nodup → ∀ w v : Wakeup cfg,
      (∀ t ∈ l, w.state.dwellTables t = s.dwellTables t) →
      l.foldlM (dwellTurn svc fuel) w = some v →
      (v.status = .success ↔
        w.status = .success ∧ ∀ t ∈ l, ReadsSucceed svc t (s.dwellTables t)) := by
    intro l
    induction l with
    | nil =>
      rintro - w v - hv
      cases hv
      simp
    | cons t l ih =>
      intro hl w v hw hv
      rw [List.nodup_cons] at hl
      rw [List.foldlM_cons, dwellTurn, Option.bind_eq_bind, Option.bind_eq_some_iff] at hv
      obtain ⟨u, hu, hv⟩ := hv
      obtain ⟨p, hp, rfl⟩ := Option.map_eq_some_iff.mp hu
      rw [hw t List.mem_cons_self] at hp
      rw [ih hl.2 _ v _ hv, List.forall_mem_cons, ← dwellTable_status (hn t) hp]
      · split_ifs with hs
        · simp [hs]
        · simp [hs]
      · intro u hu
        have hut : u ≠ t := fun h => hl.1 (h ▸ hu)
        simpa [Function.update_of_ne hut] using hw u (List.mem_cons_of_mem t hu)
  have hall := turns _ (List.nodup_finRange _) ⟨s, .success, []⟩ w (fun _ _ => rfl) h
  simpa using hall

theorem dwellLoop_ends_iff (hn : ∀ t, (s.dwellTables t).addrCount ≤ cfg.dwellTableSize) :
    (∃ fuel w, dwellLoop svc fuel s = some w) ↔ ∀ t, ¬ Endless (s.dwellTables t) := by
  constructor
  · rintro ⟨fuel, w, hw⟩ t
    obtain ⟨p, hp, -⟩ := dwellLoop_stream hw t
    exact (dwellTable_ends_iff (hn t) _).mp ⟨fuel, p, hp⟩
  · intro he
    exact dwellLoop_total fun t => (dwellTable_ends_iff (hn t) _).mpr (he t)

end Wakeup

end ReadResults
