import MemoryDwell.EntryAcceptance
import MemoryDwell.TableValidation

/-! # Scans of symbol names

MD_ResolveSymAddr takes the length of a name with `strlen`, in commands and tables as they
came from the ground. The NUL at the end of the field that would stop it is no longer
written, so that the scan stays in the field just when the name brings its own. -/
namespace NameScans

open DwellData DwellUtils DwellTbl DwellCmds DwellStreams DwellTraces CommandAccounting
open EntryAcceptance TableValidation FueledLoop

variable {cfg : Config}

section Scan

variable {n : ℕ}

/-- Memory from the start of a field on. -/
def BeginsWith (mem : ℕ → UInt8) (f : CharField n) : Prop := ∀ i < n, f.bytes[i]? = some (mem i)

instance (mem : ℕ → UInt8) (f : CharField n) : Decidable (BeginsWith mem f) :=
  inferInstanceAs (Decidable (∀ i < n, _))

def scanning (mem : ℕ → UInt8) (i : ℕ) : Bool := mem i != 0

/-- The bytes that `strlen` looks at are bytes of the field, whatever stands behind it, and
what it finds is the length of the string in the field. -/
structure ScanInside (f : CharField n) : Prop where
  inside : ∀ mem, BeginsWith mem f → ∀ i, Reaches (scanning mem) (· + 1) 0 i → i < n
  length : ∀ mem, BeginsWith mem f →
    ∃ fuel, whileLoop (scanning mem) (· + 1) fuel 0 = some f.cstr.length

theorem reaches_of_nonzero {mem : ℕ → UInt8} {k : ℕ} (h : ∀ i < k, mem i ≠ 0) :
    Reaches (scanning mem) (· + 1) 0 k := by
  induction k with
  | zero => exact .enter
  | succ k ih =>
    have hk := ih fun i hi => h i (Nat.lt_succ_of_lt hi)
    apply hk.turn
    simpa [scanning] using h k (Nat.lt_succ_self k)

theorem scanning_keeps {mem : ℕ → UInt8} {k : ℕ} (h0 : mem k = 0) (i : ℕ) (hi : i ≤ k)
    (hc : scanning mem i = true) : i + 1 ≤ k := by
  have hne : mem i ≠ 0 := by simpa [scanning] using hc
  rcases Nat.lt_or_eq_of_le hi with hlt | rfl
  · exact hlt
  · exact absurd h0 hne

theorem strlen_finds {mem : ℕ → UInt8} {k : ℕ} (hlt : ∀ i < k, mem i ≠ 0) (h0 : mem k = 0) :
    ∃ fuel, whileLoop (scanning mem) (· + 1) fuel 0 = some k := by
  have hends : ∃ i, whileLoop (scanning mem) (· + 1) (k + 1) 0 = some i := by
    apply while_variant (I := fun i => i ≤ k) (fun i => k - i) _ (Nat.zero_le k)
      (Nat.lt_succ_self k)
    intro i hi hc
    have hnext := scanning_keeps h0 i hi hc
    omega
  obtain ⟨i, hi⟩ := hends
  obtain ⟨hle, hexit⟩ := while_invariant (scanning_keeps h0) (Nat.zero_le k) hi
  have hz : mem i = 0 := by simpa [scanning] using hexit
  rcases Nat.lt_or_eq_of_le hle with hlti | rfl
  · exact absurd hz (hlt i hlti)
  · exact ⟨_, hi⟩

theorem terminated_memory {f : CharField n} (h : f.Terminated) {mem : ℕ → UInt8}
    (hm : BeginsWith mem f) : (∀ i < f.cstr.length, mem i ≠ 0) ∧ mem f.cstr.length = 0 := by
  obtain ⟨r, hr⟩ := CharField.bytes_of_terminated h
  have hlt := CharField.cstr_length_lt h
  constructor
  · intro i hi
    have hb := hm i (hi.trans hlt)
    rw [hr, List.getElem?_append_left hi] at hb
    exact CharField.ne_zero_of_mem_cstr (List.mem_of_getElem? hb)
  · have hb := hm f.cstr.length hlt
    rw [hr, List.getElem?_append_right le_rfl, Nat.sub_self] at hb
    exact (Option.some.inj hb).symm

theorem scanInside_iff (f : CharField n) : ScanInside f ↔ f.Terminated := by
  constructor
  · intro h
    by_contra hn
    -- Behind the field stand bytes that are no NULs either.
    have hm : BeginsWith (fun i => f.bytes.getD i 1) f := by
      intro i hi
      rw [← f.size_eq] at hi
      simp [hi]
    have hne : ∀ i < n, f.bytes.getD i 1 ≠ 0 := by
      intro i hi he
      apply hn
      have hb : f.bytes[i]? = some (f.bytes.getD i 1) := hm i hi
      rw [he] at hb
      exact List.mem_of_getElem? hb
    exact absurd (h.inside _ hm n (reaches_of_nonzero hne)) (lt_irrefl n)
  · intro h
    refine ⟨?_, ?_⟩
    · intro mem hm i hi
      have hle := hi.invariant (scanning_keeps (terminated_memory h hm).2) (Nat.zero_le _)
      exact hle.trans_lt (CharField.cstr_length_lt h)
    · intro mem hm
      obtain ⟨hlt, h0⟩ := terminated_memory h hm
      exact strlen_finds hlt h0

theorem readOn_eq_takeWhile (f : CharField n) (behind : List UInt8) :
    readOn n f.cstr behind = (f.bytes ++ behind).takeWhile (· != 0) := by
  have hfront : f.cstr <+: f.bytes := List.takeWhile_prefix _
  have hle := hfront.length_le
  have hn := f.size_eq
  rw [readOn, List.takeWhile_append]
  change (if _ then f.cstr else f.cstr ++ _) = if f.cstr.length = _ then _ else f.cstr
  split_ifs with hlt heq heq
  · omega
  · rfl
  · rw [hfront.eq_of_length heq]
  · omega

/-- What `strlen` and the lookup make of a field with the bytes `behind` and then a NUL is
the string of `readOn`. -/
theorem readOn_scanned (f : CharField n) {behind : List UInt8} {mem : ℕ → UInt8}
    (hm : ∀ i b, (f.bytes ++ behind ++ [0])[i]? = some b → mem i = b) :
    (∃ fuel, whileLoop (scanning mem) (· + 1) fuel 0 = some (readOn n f.cstr behind).length) ∧
      ∀ i b, (readOn n f.cstr behind)[i]? = some b → mem i = b := by
  rw [readOn_eq_takeWhile]
  generalize f.bytes ++ behind = l at hm ⊢
  have hsplit : l.takeWhile (· != 0) ++ (l.dropWhile (· != 0) ++ [0]) = l ++ [0] := by
    rw [← List.append_assoc, List.takeWhile_append_dropWhile]
  have hstring : ∀ i b, (l.takeWhile (· != 0))[i]? = some b → mem i = b := by
    intro i b hb
    apply hm
    rw [← hsplit, List.getElem?_append_left (List.getElem?_eq_some_iff.mp hb).1, hb]
  refine ⟨strlen_finds ?_ ?_, hstring⟩
  · intro i hi
    have hmem := List.getElem_mem hi
    rw [hstring i _ (List.getElem?_eq_getElem hi)]
    simpa using List.mem_takeWhile_imp hmem
  · apply hm
    rw [← hsplit, List.getElem?_append_right le_rfl, Nat.sub_self]
    cases hd : l.dropWhile (· != 0) with
    | nil => rfl
    | cons b rest =>
      have hhead := List.head_dropWhile_not (· != 0) (l := l) (by simp [hd])
      simpa [hd] using hhead

end Scan

/-- A Jam that comes to resolve its address. -/
def JamResolves (p : CmdJamPayload cfg) : Prop :=
  (∃ t : TblIndex cfg, tableIndex cfg p.tableId = some t) ∧ validEntryId cfg p.entryId = true ∧
    p.fieldLength ≠ 0

/-- The loop of MD_CheckTableEntries goes on: the entry it looks at is not a null entry. -/
def checking (r : Resolver) (tbl : DwellTableLoad cfg) (c : CheckState) : Bool :=
  c.entryIndex < cfg.dwellTableSize ∧ ¬(validTableEntry r c.entryIndex (tbl.entry c.entryIndex) =
    .success ∧ (tbl.entry c.entryIndex).length = 0)

/-- Validation comes to the entry and resolves its address. -/
def ValidationResolves (r : Resolver) (tbl : DwellTableLoad cfg) (i : ℕ) : Prop :=
  EnabledOk tbl ∧ tbl.signature.scanNul < cfg.signatureFieldLength ∧
    ∃ c, Reaches (checking r tbl) (checkEntry r tbl) checkInit c ∧ c.entryIndex = i ∧
      i < cfg.dwellTableSize ∧ (tbl.entry i).length ≠ 0

/-- The copy comes to the entry; it resolves every address, also of a null entry. -/
def CopyResolves (r : Resolver) (tbl : DwellTableLoad cfg) (control : DwellPacketControl cfg)
    (i : ℕ) : Prop :=
  ∃ c, Reaches (fun c : CopyState cfg => decide (c.entryIndex < cfg.dwellTableSize))
    (copyEntry r tbl) ⟨0, 0, control⟩ c ∧ c.entryIndex = i ∧ i < cfg.dwellTableSize

section Calls

variable {r : Resolver} {tbl : DwellTableLoad cfg}

theorem checking_iff {i : ℕ} {c : CheckState} (hc : c.entryIndex = i) :
    checking r tbl c = true ↔ i < cfg.dwellTableSize ∧ (tbl.entry i).length ≠ 0 := by
  rw [checking, decide_eq_true_eq, hc]
  apply and_congr_right
  intro _
  constructor
  · intro h h0
    exact h ⟨validTableEntry_null r i h0, h0⟩
  · exact fun h0 h => h0 h.2

theorem checked_scanned {c : CheckState}
    (h : Reaches (checking r tbl) (checkEntry r tbl) checkInit c) :
    ∃ i ≤ activeLength cfg (loadLengths tbl), Scanned r tbl i c := by
  apply h.invariant (I := fun c => ∃ i ≤ activeLength cfg (loadLengths tbl), Scanned r tbl i c)
  · rintro c ⟨i, hi, hs⟩ hc
    obtain ⟨hN, h0⟩ := (checking_iff hs.entryIndex).mp hc
    have hlt : i < activeLength cfg (loadLengths tbl) := by
      refine lt_activeLength.mpr ⟨hN, fun j hj => ?_⟩
      rcases Nat.lt_or_eq_of_le hj with hj | rfl
      · exact active_ne_zero (hj.trans_le hi)
      · exact h0
    have hsize := cfg.size_le
    exact ⟨i + 1, hlt, scanned_turn hs (by omega)⟩
  · exact ⟨0, Nat.zero_le _, scanned_init r tbl⟩

theorem scan_comes_to {i : ℕ} (hi : i ≤ activeLength cfg (loadLengths tbl)) :
    ∃ c, Reaches (checking r tbl) (checkEntry r tbl) checkInit c ∧ Scanned r tbl i c := by
  induction i with
  | zero => exact ⟨_, .enter, scanned_init r tbl⟩
  | succ i ih =>
    obtain ⟨c, hc, hs⟩ := ih (by omega)
    have hle := activeLength_le cfg (loadLengths tbl)
    have hsize := cfg.size_le
    refine ⟨_, hc.turn ?_, scanned_turn hs (by omega)⟩
    exact (checking_iff hs.entryIndex).mpr ⟨by omega, active_ne_zero hi⟩

theorem validationResolves_iff {i : ℕ} : ValidationResolves r tbl i ↔
    EnabledOk tbl ∧ tbl.signature.Terminated ∧ Processed tbl i := by
  rw [ValidationResolves, CharField.scanNul_lt_iff, processed_iff]
  apply and_congr_right
  intro _
  apply and_congr_right
  intro _
  constructor
  · rintro ⟨c, hc, rfl, hi, h0⟩
    obtain ⟨i, hle, hs⟩ := checked_scanned hc
    rw [hs.entryIndex] at hi h0 ⊢
    rcases Nat.lt_or_eq_of_le hle with hlt | rfl
    · exact hlt
    · exact absurd (active_stops hi) h0
  · intro hi
    obtain ⟨c, hc, hs⟩ := scan_comes_to hi.le
    exact ⟨c, hc, hs.entryIndex, hi.trans_le (activeLength_le cfg _), active_ne_zero hi⟩

theorem copyResolves_iff {control : DwellPacketControl cfg} {i : ℕ} :
    CopyResolves r tbl control i ↔ i < cfg.dwellTableSize ∧ i < 256 := by
  constructor
  · rintro ⟨c, hc, rfl, hi⟩
    refine ⟨hi, hc.invariant (I := fun c => c.entryIndex < 256) ?_ (by simp)⟩
    intro c _ _
    exact Nat.mod_lt _ (by decide)
  · rintro ⟨hi, h256⟩
    induction i with
    | zero => exact ⟨_, .enter, rfl, hi⟩
    | succ i ih =>
      obtain ⟨c, hc, rfl, hlt⟩ := ih (by omega) (by omega)
      exact ⟨_, hc.turn (decide_eq_true hlt), Nat.mod_eq_of_lt h256, hi⟩

end Calls

/-- CFE_SB_MessageStringGet copies up to the first NUL or to one byte before the end, and
ends the copy with a NUL. -/
def CopiesStrings (svc : Services cfg) : Prop :=
  ∀ name, (svc.messageStringGet name).Terminated ∧
    (svc.messageStringGet name).cstr = name.cstr.take (cfg.maxPathLen - 1)

/-- An accepted Jam of a non-null entry leaves an address in the buffer that resolves to the
one it leaves in the control structure. -/
def StoredAsResolved (svc : Services cfg) (p : CmdJamPayload cfg) (s : State cfg) : Prop :=
  let s' := (jamDwellCmd svc p s).2
  let i := p.entryId.toNat - 1
  p.fieldLength ≠ 0 → Accomplished s s' →
    ∃ t : TblIndex cfg, p.tableId.toNat = t + 1 ∧ ∀ site old,
      resolveSymAddr svc.toResolver site ((s'.tblBuffer t).entry i).dwellAddress old =
        (true, ((s'.dwellTables t).entry i).resolvedAddress)

theorem jamDwellCmd_stores_load {svc : Services cfg} {p : CmdJamPayload cfg} {t : TblIndex cfg}
    {new : DwellControlEntry} {load : TableLoadEntry cfg} (hw : jamWrite svc p = some (new, load))
    (ht : p.tableId.toNat = t + 1) (hg : Granted svc t) (s : State cfg) :
    ((jamDwellCmd svc p s).2.tblBuffer t).entry (p.entryId.toNat - 1) = load := by
  have hs := jamDwellCmd_step svc p s t
  rw [jamOp, if_pos (tableIndex_eq_some.mpr ht), hw, decide_eq_true hg] at hs
  have hb : (jamDwellCmd svc p s).2.tblBuffer t = _ := congrArg Stream.buffer hs.1
  rw [hb, jamEntry, if_pos rfl]
  exact Function.update_self _ _ _

theorem storedAsResolved {svc : Services cfg} {m : MemoryMap} (hm : svc.toResolver = m.resolver)
    (hget : CopiesStrings svc) {p : CmdJamPayload cfg}
    (hterm : p.dwellAddress.symName.Terminated) (s : State cfg) : StoredAsResolved svc p s := by
  intro h0 hacc
  obtain ⟨hok, hg⟩ := (Counted.accomplished_iff (jamDwellCmd_counted svc p s)).mp hacc
  obtain ⟨t, ht⟩ := hok.table
  obtain ⟨⟨new, load⟩, hw⟩ := Option.isSome_iff_exists.mp ((jamWrite_isSome ⟨t, ht⟩).mpr hok)
  refine ⟨t, ht, fun site old => ?_⟩
  rw [jamDwellCmd_stores_load hw ht (hg t ht) s, jamDwellCmd_stores hw ht (hg t ht) s, hm]
  rcases jamWrite_cases hw with ⟨rfl, rfl⟩ | ⟨a, -, hc, rfl, rfl⟩
  · exact (resolveSymAddr_found m site _ old 0).mpr (by simp [MemoryMap.resolve, nullDwellAddress])
  · have hcstr : (svc.messageStringGet p.dwellAddress.symName).cstr =
        p.dwellAddress.symName.cstr := by
      rw [(hget _).2]
      apply List.take_of_length_le
      have := CharField.cstr_length_lt hterm
      omega
    have hres : m.resolve ⟨p.dwellAddress.offset, svc.messageStringGet p.dwellAddress.symName⟩ =
        m.resolve p.dwellAddress := resolve_congr m rfl hcstr
    apply (resolveSymAddr_found m site _ old a).mpr
    exact hres.trans ((jamChecks_map hm h0 a).mp hc).1

/-- Names are scanned inside their field, and in an accepted Jam stored as they were resolved,
exactly if the names that are resolved are terminated: of a Jam with valid ids and a length, of
the processed entries of a table whose flag and signature are good, and of the entries that a
copy comes to. -/
theorem names_inside_iff {svc : Services cfg} {m : MemoryMap} (hm : svc.toResolver = m.resolver)
    (hget : CopiesStrings svc) :
    (∀ p s, (JamResolves p → ScanInside p.dwellAddress.symName) ∧ StoredAsResolved svc p s ↔
      (JamResolves p → p.dwellAddress.symName.Terminated)) ∧
    (∀ r (tbl : DwellTableLoad cfg),
      (∀ i, ValidationResolves r tbl i → ScanInside (tbl.entry i).dwellAddress.symName) ↔
      (EnabledOk tbl → tbl.signature.Terminated →
        ∀ i, Processed tbl i → (tbl.entry i).dwellAddress.symName.Terminated)) ∧
    (∀ r (tbl : DwellTableLoad cfg) control,
      (∀ i, CopyResolves r tbl control i → ScanInside (tbl.entry i).dwellAddress.symName) ↔
      ∀ i < cfg.dwellTableSize, i < 256 → (tbl.entry i).dwellAddress.symName.Terminated) := by
  refine ⟨?_, ?_, ?_⟩
  · intro p s
    constructor
    · exact fun h hr => (scanInside_iff _).mp (h.1 hr)
    · intro h
      refine ⟨fun hr => (scanInside_iff _).mpr (h hr), ?_⟩
      intro h0 hacc
      have hok := ((Counted.accomplished_iff (jamDwellCmd_counted svc p s)).mp hacc).1
      obtain ⟨t, ht⟩ := hok.table
      have hr : JamResolves p :=
        ⟨⟨t, tableIndex_eq_some.mpr ht⟩, by simpa [validEntryId] using hok.entry, h0⟩
      exact storedAsResolved hm hget (h hr) s h0 hacc
  · intro r tbl
    simp only [validationResolves_iff, scanInside_iff]
    constructor
    · intro h he hs i hi
      exact h i ⟨he, hs, hi⟩
    · rintro h i ⟨he, hs, hi⟩
      exact h he hs i hi
  · intro r tbl control
    simp only [copyResolves_iff, scanInside_iff, and_imp]

namespace Counterexample

def config : Config := threeEntries

def name : CharField config.maxPathLen := fullName

def payload : CmdJamPayload config := ⟨1, 1, 4, 1, ⟨0, name⟩⟩

def tbl : DwellTableLoad config := loadTable config 0 [⟨4, 1, 0, name⟩]

end Counterexample

/-- A Jam with that name resolves it, and so do the validation and the copy of a table with
it; with two more characters behind the field the scan ends after them. -/
theorem scan_leaves_field :
    JamResolves Counterexample.payload ∧
    ValidationResolves flatMemory.resolver Counterexample.tbl 0 ∧
    CopyResolves flatMemory.resolver Counterexample.tbl (DwellApp.zeroControl _) 0 ∧
    ¬ ScanInside Counterexample.name ∧
    ∃ mem, BeginsWith mem Counterexample.name ∧
      whileLoop (scanning mem) (· + 1) 10 0 = some 4 := by
  refine ⟨⟨⟨0, by decide +kernel⟩, by decide, by decide⟩, ?_, ?_, ?_, ?_⟩
  · rw [validationResolves_iff]
    decide +kernel
  · rw [copyResolves_iff]
    decide
  · rw [scanInside_iff]
    decide
  · exact ⟨fun i => if i < 4 then 65 + UInt8.ofNat i else 0, by decide +kernel, by decide +kernel⟩

theorem names_inside_iff_short :
    let name : CharField Counterexample.config.maxPathLen := ⟨[65, 0], rfl⟩
    let svc : Services Counterexample.config :=
      { smallServices _ .success with messageStringGet := fun name => name.setNul 1 }
    let tbl := loadTable Counterexample.config 0 [⟨4, 1, 0, name⟩]
    StoredAsResolved svc ⟨1, 1, 4, 1, ⟨0, name⟩⟩ (blankState _) ∧
    (∀ i, ValidationResolves flatMemory.resolver tbl i →
      ScanInside (tbl.entry i).dwellAddress.symName) ∧
    ∀ i, CopyResolves flatMemory.resolver tbl (DwellApp.zeroControl _) i →
      ScanInside (tbl.entry i).dwellAddress.symName := by
  intro name svc tbl
  have hget : CopiesStrings svc := by
    rintro ⟨bytes, hl⟩
    obtain ⟨a, b, rfl⟩ := List.length_eq_two.mp hl
    refine ⟨by simp [svc, CharField.setNul, CharField.Terminated], ?_⟩
    by_cases ha : a = 0
    · simp [svc, CharField.setNul, CharField.cstr, ha]
    · by_cases hb : b = 0 <;>
        simp [svc, CharField.setNul, CharField.cstr, ha, hb, Counterexample.config,
          threeEntries, smallConfig]
  obtain ⟨hjam, hvalid, hcopy⟩ := names_inside_iff (m := flatMemory) rfl hget
  refine ⟨((hjam _ _).mpr fun _ => ?_).2, (hvalid _ tbl).mpr ?_, (hcopy _ tbl _).mpr ?_⟩
  · decide
  · intro _ _ i hi
    have hone : activeLength Counterexample.config (loadLengths tbl) = 1 := by decide +kernel
    obtain rfl : i = 0 := by
      have hlt := processed_iff.mp hi
      omega
    decide +kernel
  · decide +kernel

end NameScans
