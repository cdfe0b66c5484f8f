import MemoryDwell.CommandAccounting

/-! # Two checks of an entry

An entry comes into a table with a load or with a Jam, and either way is checked by code
of its own. The two ask for the same things, but each reads the symbol name where it stands:
a name without a NUL goes on into the message in one case and into the table in the other. -/
namespace EntryAcceptance

open DwellData DwellUtils DwellTbl DwellCmds DwellStreams DwellTraces CommandAccounting

variable {cfg : Config}

def loadEntryOf (p : CmdJamPayload cfg) : TableLoadEntry cfg :=
  ⟨p.fieldLength, p.dwellDelay, p.dwellAddress⟩

/-- The address that MD_ValidTableEntry resolves and then checks. -/
def checkedAddr (r : Resolver) (site : ℕ) (e : TableLoadEntry cfg) : ℕ :=
  (resolveSymAddr r site e.dwellAddress 0).2

theorem checkedAddr_found {r : Resolver} {site : ℕ} {e : TableLoadEntry cfg} {a : ℕ}
    (h : resolveSymAddr r site e.dwellAddress 0 = (true, a)) : checkedAddr r site e = a := by
  rw [checkedAddr, h]

/-- The Jam of an entry into table `t` is counted as executed just when the load of the entry is
valid, and what it stores is the address that the validation checks: with any symbol table and
memory map, and any bytes behind the name in the message and in the table. -/
def AcceptedAlike (p : CmdJamPayload cfg) (t : TblIndex cfg) : Prop :=
  ∀ (m : MemoryMap) (inMessage inTable : ℕ → List UInt8) (svc : Services cfg) (site : ℕ)
    (s : State cfg), svc.toResolver = m.reader cfg.maxPathLen inMessage → Granted svc t →
    let s' := (jamDwellCmd svc p s).2
    let r := m.reader cfg.maxPathLen inTable
    (s'.cmdCounter = (s.cmdCounter + 1) % 256 ↔
      validTableEntry r site (loadEntryOf p) = .success) ∧
    (s'.cmdCounter = (s.cmdCounter + 1) % 256 → p.fieldLength ≠ 0 →
      ((s'.dwellTables t).entry (p.entryId.toNat - 1)).resolvedAddress =
        checkedAddr r site (loadEntryOf p))

section Jam

variable {svc : Services cfg} {m : MemoryMap} {p : CmdJamPayload cfg} {t : TblIndex cfg}
  {inMessage inTable : ℕ → List UInt8}

def ReadAlike (m : MemoryMap) (p : CmdJamPayload cfg) (behind behind' : List UInt8) : Prop :=
  ∀ a, Dwellable m p.fieldLength a →
    (m.resolveAt behind p.dwellAddress = some a ↔ m.resolveAt behind' p.dwellAddress = some a)

theorem readAlike_of_terminated (h : p.dwellAddress.symName.Terminated)
    (behind behind' : List UInt8) : ReadAlike m p behind behind' := by
  intro a _
  rw [resolveAt_terminated m _ h, resolveAt_terminated m _ h]

theorem jamArgumentsOk_iff_valid (hm : svc.toResolver = m.reader cfg.maxPathLen inMessage)
    (ht : p.tableId.toNat = t + 1)
    (he : 1 ≤ p.entryId.toNat ∧ p.entryId.toNat ≤ cfg.dwellTableSize) (site : ℕ)
    (hr : p.fieldLength ≠ 0 → ReadAlike m p (inMessage 0) (inTable site)) :
    JamArgumentsOk svc p ↔
      validTableEntry (m.reader cfg.maxPathLen inTable) site (loadEntryOf p) = .success := by
  have hid : validEntryId cfg p.entryId = true := by simpa [validEntryId] using he
  rw [← jamWrite_isSome ⟨t, ht⟩, validTableEntry_reader, jamWrite, if_neg (not_not.mpr hid)]
  by_cases h0 : p.fieldLength = 0
  · rw [if_pos h0]
    exact iff_of_true rfl (Or.inl h0)
  · rw [if_neg h0]
    cases hc : jamChecks svc p with
    | error e =>
      apply iff_of_false (by simp)
      rintro (h | ⟨a, ha, hd⟩)
      · exact h0 h
      · rw [(jamChecks_reader hm h0 a).mpr ⟨(hr h0 a hd).mpr ha, hd⟩] at hc
        cases hc
    | ok a =>
      obtain ⟨ha, hd⟩ := (jamChecks_reader hm h0 a).mp hc
      exact iff_of_true rfl (Or.inr ⟨a, (hr h0 a hd).mp ha, hd⟩)

theorem jamWrite_nonnull (he : 1 ≤ p.entryId.toNat ∧ p.entryId.toNat ≤ cfg.dwellTableSize)
    (h0 : p.fieldLength ≠ 0) {a : ℕ} (hc : jamChecks svc p = .ok a) :
    jamWrite svc p = some (⟨p.fieldLength, p.dwellDelay, a⟩, ⟨p.fieldLength, p.dwellDelay,
      p.dwellAddress.offset, svc.messageStringGet p.dwellAddress.symName⟩) := by
  have hid : validEntryId cfg p.entryId = true := by simpa [validEntryId] using he
  rw [jamWrite, if_neg (not_not.mpr hid), if_neg h0, hc]

theorem jamDwellCmd_stores {new : DwellControlEntry} {load : TableLoadEntry cfg}
    (hw : jamWrite svc p = some (new, load)) (ht : p.tableId.toNat = t + 1)
    (hg : Granted svc t) (s : State cfg) :
    ((jamDwellCmd svc p s).2.dwellTables t).entry (p.entryId.toNat - 1) = new := by
  have hs := jamDwellCmd_step svc p s t
  rw [jamOp, if_pos (tableIndex_eq_some.mpr ht), hw, decide_eq_true hg] at hs
  have hc : (jamDwellCmd svc p s).2.dwellTables t = _ := congrArg Stream.control hs.1
  rw [hc, jamEntry, if_pos rfl]
  exact Function.update_self _ _ _

theorem counted_iff_argumentsOk (ht : p.tableId.toNat = t + 1) (hg : Granted svc t)
    (s : State cfg) : (jamDwellCmd svc p s).2.cmdCounter = (s.cmdCounter + 1) % 256 ↔
      JamArgumentsOk svc p := by
  obtain ⟨hdone, hfail⟩ := jamDwellCmd_counted svc p s
  constructor
  · intro h
    by_contra hno
    rw [(hfail fun hd => hno hd.1).1] at h
    omega
  · intro h
    exact (hdone ⟨h, (named_granted (tableIndex_eq_some.mpr ht)).mpr hg⟩).1

theorem acceptedAlike_of_read (ht : p.tableId.toNat = t + 1)
    (he : 1 ≤ p.entryId.toNat ∧ p.entryId.toNat ≤ cfg.dwellTableSize)
    (hr : p.fieldLength ≠ 0 → ∀ m behind behind', ReadAlike m p behind behind') :
    AcceptedAlike p t := by
  intro m inMessage inTable svc site s hm hg s' r
  have hread : p.fieldLength ≠ 0 → ReadAlike m p (inMessage 0) (inTable site) :=
    fun h0 => hr h0 m _ _
  have hvalid := (counted_iff_argumentsOk ht hg s).trans
    (jamArgumentsOk_iff_valid hm ht he site hread)
  refine ⟨hvalid, fun hc h0 => ?_⟩
  rcases (validTableEntry_reader m inTable site _).mp (hvalid.mp hc) with hnull | ⟨a, ha, hd⟩
  · exact absurd hnull h0
  · have hok := (jamChecks_reader hm h0 a).mpr ⟨(hread h0 a hd).mpr ha, hd⟩
    rw [jamDwellCmd_stores (jamWrite_nonnull he h0 hok) ht hg s]
    exact (checkedAddr_found ((reader_found m inTable site _ 0 a).mpr ha)).symm

def fieldOnly (p : CmdJamPayload cfg) : MemoryMap where
  symbols name :=
    if name = p.dwellAddress.symName.cstr then
      some ((2 ^ cfg.addrWidth - 1) * p.dwellAddress.offset)
    else none
  validRange _ _ := true

theorem fieldOnly_reads (hn : ¬ p.dwellAddress.symName.Terminated) :
    (fieldOnly p).resolveAt [] p.dwellAddress = some 0 ∧
      (fieldOnly p).resolveAt [1] p.dwellAddress = none := by
  have hfull := length_of_unterminated hn
  have hpos := cfg.path_pos
  have h0 : ¬ p.dwellAddress.symName.cstr.length = 0 := by omega
  have hsum : (2 ^ cfg.addrWidth - 1) * p.dwellAddress.offset + p.dwellAddress.offset =
      2 ^ cfg.addrWidth * p.dwellAddress.offset := by
    have hone : 2 ^ cfg.addrWidth - 1 + 1 = 2 ^ cfg.addrWidth :=
      Nat.sub_add_cancel Nat.one_le_two_pow
    rw [← Nat.succ_mul, Nat.succ_eq_add_one, hone]
  rw [MemoryMap.resolveAt, MemoryMap.resolveAt, if_neg h0, if_neg h0]
  constructor
  · simp [readOn, hfull, fieldOnly, hsum]
  · simp [readOn, hfull, fieldOnly]

theorem not_acceptedAlike (ht : p.tableId.toNat = t + 1)
    (he : 1 ≤ p.entryId.toNat ∧ p.entryId.toNat ≤ cfg.dwellTableSize) (h0 : p.fieldLength ≠ 0)
    (hl : validFieldLength p.fieldLength = true) (hn : ¬ p.dwellAddress.symName.Terminated) :
    ¬ AcceptedAlike p t := by
  intro h
  obtain ⟨hknown, hunknown⟩ := fieldOnly_reads hn
  let svc : Services cfg :=
    { smallServices cfg .success with
      toResolver := (fieldOnly p).reader cfg.maxPathLen fun _ => [] }
  have hd : Dwellable (fieldOnly p) p.fieldLength 0 :=
    ⟨((validFieldLength_iff _).mp hl).resolve_left h0, rfl, fun _ => rfl, fun _ => rfl⟩
  have hid : validEntryId cfg p.entryId = true := by simpa [validEntryId] using he
  have hm : svc.toResolver = (fieldOnly p).reader cfg.maxPathLen fun _ => [] := rfl
  have hchecks : jamChecks svc p = .ok 0 := (jamChecks_reader hm h0 0).mpr ⟨hknown, hd⟩
  have hok : JamArgumentsOk svc p := by
    rw [← jamWrite_isSome ⟨t, ht⟩, jamWrite_nonnull he h0 hchecks]
    rfl
  have hg : Granted svc t := Or.inl rfl
  obtain ⟨halike, -⟩ := h (fieldOnly p) (fun _ => []) (fun _ => [1]) svc 0 (blankState cfg) rfl hg
  have hvalid := halike.mp ((counted_iff_argumentsOk ht hg _).mpr hok)
  rcases (validTableEntry_reader _ _ _ _).mp hvalid with hnull | ⟨a, ha, -⟩
  · exact h0 hnull
  · exact absurd (hunknown.symm.trans ha) (by simp)

/-- A Jam with valid ids is accepted just as the load of its entry is, and with the same address,
if its name ends in the field; without a NUL there just if the length alone decides. -/
theorem jam_accepts_valid_entries_iff (ht : p.tableId.toNat = t + 1)
    (he : 1 ≤ p.entryId.toNat ∧ p.entryId.toNat ≤ cfg.dwellTableSize) :
    AcceptedAlike p t ↔ p.dwellAddress.symName.Terminated ∨ p.fieldLength = 0 ∨
      validFieldLength p.fieldLength = false := by
  constructor
  · intro h
    by_contra hn
    obtain ⟨hname, hlen⟩ := not_or.mp hn
    obtain ⟨h0, hl⟩ := not_or.mp hlen
    exact not_acceptedAlike ht he h0 (Bool.of_not_eq_false hl) hname h
  · rintro (h | h | h)
    · exact acceptedAlike_of_read ht he fun _ m => readAlike_of_terminated h
    · exact acceptedAlike_of_read ht he fun h0 => absurd h h0
    · apply acceptedAlike_of_read ht he
      intro h0 m _ _ a hd
      have hl := (validFieldLength_iff _).mpr (Or.inr hd.1)
      rw [h] at hl
      cases hl

end Jam

namespace Counterexample

def config : Config := threeEntries

def memory : MemoryMap where
  symbols name := if name = [65, 66, 4] then some 16 else none
  validRange _ _ := true

def payload : CmdJamPayload config := ⟨1, 1, 4, 1, 0, fullName⟩

/-- The message ends behind the name. -/
def services : Services config :=
  { smallServices config .success with
    toResolver := memory.reader config.maxPathLen fun _ => [] }

/-- In the table an entry of four bytes comes next, low byte of the length first. -/
def inTable : Resolver := memory.reader config.maxPathLen fun _ => [4, 0]

end Counterexample

/-- The load is valid and the Jam is refused. -/
theorem jam_reads_other_name :
    let s' := (jamDwellCmd Counterexample.services Counterexample.payload (blankState _)).2
    validTableEntry Counterexample.inTable 0 (loadEntryOf Counterexample.payload) = .success ∧
      s'.cmdCounter = 0 ∧ s'.errCounter = 1 ∧
      ¬ AcceptedAlike Counterexample.payload (0 : TblIndex Counterexample.config) := by
  refine ⟨by decide +kernel, by decide +kernel, by decide +kernel, fun h => ?_⟩
  obtain ⟨halike, -⟩ := h Counterexample.memory (fun _ => []) (fun _ => [4, 0])
    Counterexample.services 0 (blankState _) rfl (Or.inl rfl)
  exact absurd (halike.mpr (by decide +kernel)) (by decide +kernel)

theorem jam_accepts_valid_entries_small :
    let config := smallConfig 3 (by decide) (by decide)
    let p : CmdJamPayload config := ⟨1, 2, 4, 7, 16, .zeros _⟩
    let s' := (jamDwellCmd (smallServices config .success) p (blankState config)).2
    s'.cmdCounter = 1 ∧ ((s'.dwellTables 0).entry 1).resolvedAddress = 16 := by
  intro config p s'
  have ht : p.tableId.toNat = (0 : TblIndex config) + 1 := rfl
  have alike : AcceptedAlike p (0 : TblIndex config) :=
    (jam_accepts_valid_entries_iff ht (by decide)).mpr
      (Or.inl (CharField.zeros_terminated config.path_pos))
  obtain ⟨hvalid, hstored⟩ := alike flatMemory (fun _ => []) (fun _ => [])
    (smallServices config .success) 1 (blankState config) (reader_nil flatMemory _).symm
    (Or.inl rfl)
  have hc := hvalid.mpr (by decide +kernel)
  exact ⟨hc, hstored hc (by decide)⟩

end EntryAcceptance
