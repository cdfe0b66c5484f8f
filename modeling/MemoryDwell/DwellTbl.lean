import MemoryDwell.DwellUtils
import MemoryDwell.FueledLoop
import Mathlib.Data.Nat.Count

/-! # Validation and copies of dwell tables (md_dwell_tbl.c) -/
namespace DwellTbl

open DwellData DwellUtils FueledLoop

variable {cfg : Config}

def readDwellTable (tbl : DwellTableLoad cfg) : Totals :=
  sumLoop cfg.dwellTableSize (fun i => (tbl.entry i).length) (fun i => (tbl.entry i).delay)
    cfg.dwellTableSize 0 ⟨0, 0, 0⟩

def validTableEntry (r : Resolver) (site : ℕ) (e : TableLoadEntry cfg) : CFEStatus :=
  if e.length = 0 then .success
  else
    let (resolved, resolvedAddr) := resolveSymAddr r site e.dwellAddress 0
    if resolved ≠ true then resolveError
    else if validAddrRange r site resolvedAddr e.length.toNat ≠ true then invalidAddrError
    else if validFieldLength e.length ≠ true then invalidLenError
    else if e.length = 4 ∧ verify32Aligned resolvedAddr e.length.toNat ≠ true then
      notAlignedError
    else if e.length = 2 ∧ verify16Aligned resolvedAddr e.length.toNat ≠ true then
      notAlignedError
    else .success

/-- The variables of MD_CheckTableEntries; `firstBadIndex` is -1 as `none`. -/
structure CheckState where
  entryIndex : ℕ
  firstErrorCode : CFEStatus
  firstBadIndex : Option ℕ
  errorEntry : ℕ
  goodCount : ℕ
  badCount : ℕ
  events : List EventMsg
  deriving DecidableEq, Repr

def checkEntry (r : Resolver) (tbl : DwellTableLoad cfg) (c : CheckState) : CheckState :=
  let status := validTableEntry r c.entryIndex (tbl.entry c.entryIndex)
  let c' := { c with entryIndex := (c.entryIndex + 1) % 65536 }
  if status = .success then { c' with goodCount := c.goodCount + 1 }
  else if c.firstBadIndex = none then
    { c' with
      badCount := c.badCount + 1
      firstBadIndex := some c.entryIndex
      errorEntry := c.entryIndex
      firstErrorCode := status
      events := c.events ++ [.tblEntryErr c.entryIndex status] }
  else { c' with badCount := c.badCount + 1 }

def checkLoop (r : Resolver) (tbl : DwellTableLoad cfg) : ℕ → CheckState → CheckState
  | 0, c => c
  | left + 1, c =>
    if c.entryIndex < cfg.dwellTableSize then
      -- A null entry is valid and ends the scan; the entries after it are not looked at.
      if validTableEntry r c.entryIndex (tbl.entry c.entryIndex) = .success ∧
          (tbl.entry c.entryIndex).length = 0 then c
      else checkLoop r tbl left (checkEntry r tbl c)
    else c

def checkInit : CheckState := ⟨0, .success, none, 0, 0, 0, []⟩

def checkTableEntries (r : Resolver) (tbl : DwellTableLoad cfg) : CheckState :=
  let c := checkLoop r tbl cfg.dwellTableSize checkInit
  { c with events := c.events ++
      [.dwellTblInf c.goodCount c.badCount (cfg.dwellTableSize - c.entryIndex)] }

def tableValidationFunc (r : Resolver) (tblPtr : Option (DwellTableLoad cfg)) :
    CFEStatus × List EventMsg :=
  match tblPtr with
  | none => (invalidAddrError, [.tblValNullPtrErr])
  | some tbl =>
    let stringLength := tbl.signature.scanNul
    if tbl.enabled ≠ dwellDisabled ∧ tbl.enabled ≠ dwellEnabled then
      (tblEnaFlagError, [.tblEnaFlag tbl.enabled])
    else if stringLength ≥ cfg.signatureFieldLength then (sigLenTblError, [.tblSigLenErr])
    else
      let rate := (readDwellTable tbl).rate
      let c := checkTableEntries r tbl
      let bad := tbl.entry c.errorEntry
      let name := bad.dwellAddress.symName.cstr
      let report :=
        if c.firstErrorCode = .success then
          if tbl.enabled = dwellEnabled ∧ rate = 0 then [.zeroRateTblInf] else []
        else if c.firstErrorCode = resolveError then
          [.resolveErr name bad.dwellAddress.offset (c.errorEntry + 1)]
        else if c.firstErrorCode = invalidAddrError then
          [.rangeErr name bad.dwellAddress.offset (c.errorEntry + 1)]
        else if c.firstErrorCode = invalidLenError then
          [.tblHasLenErr bad.length (c.errorEntry + 1)]
        else [.tblAlignErr name bad.dwellAddress.offset (c.errorEntry + 1) bad.length]
      (c.firstErrorCode, c.events ++ report)

def Accepted (r : Resolver) (tbl : DwellTableLoad cfg) : Prop :=
  (tableValidationFunc r (some tbl)).1 = .success

instance (r : Resolver) (tbl : DwellTableLoad cfg) : Decidable (Accepted r tbl) :=
  inferInstanceAs (Decidable (_ = _))

/-- The table is accepted with its names read where they stand. -/
def Accepts (M : TableMemory cfg) (tbl : DwellTableLoad cfg) : Prop :=
  Accepted (M.resolverOf tbl) tbl

instance (M : TableMemory cfg) (tbl : DwellTableLoad cfg) : Decidable (Accepts M tbl) :=
  inferInstanceAs (Decidable (Accepted _ _))

/-- The variables of the copy loop; the index is `uint8`. -/
structure CopyState (cfg : Config) where
  entryIndex : ℕ
  resolvedAddr : ℕ
  control : DwellPacketControl cfg

/-- The address variable survives from turn to turn: where the lookup fails it keeps
what the lookup left in it. -/
def copyEntry (r : Resolver) (tbl : DwellTableLoad cfg) (c : CopyState cfg) : CopyState cfg :=
  let thisLoadEntry := tbl.entry c.entryIndex
  let resolvedAddr := (resolveSymAddr r c.entryIndex thisLoadEntry.dwellAddress c.resolvedAddr).2
  { entryIndex := (c.entryIndex + 1) % 256
    resolvedAddr := resolvedAddr
    control := { c.control with
      entry := Function.update c.control.entry c.entryIndex
        ⟨thisLoadEntry.length, thisLoadEntry.delay, resolvedAddr⟩ } }

def copyUpdatedTbl (r : Resolver) (fuel : ℕ) (tbl : DwellTableLoad cfg)
    (control : DwellPacketControl cfg) : Option (DwellPacketControl cfg) :=
  let control := { control with
    enabled := tbl.enabled % 65536
    signature := control.signature.copyTerminated tbl.signature }
  (whileLoop (fun c => c.entryIndex < cfg.dwellTableSize) (copyEntry r tbl) fuel
    ⟨0, 0, control⟩).map fun c => updateDwellControlInfo c.control

/-- The common shape of the three updates of a Table Services buffer. -/
def updateTable (svc : Services cfg) (tableIndex : TblIndex cfg)
    (edit : DwellTableLoad cfg → DwellTableLoad cfg) (refused : CFEStatus → EventMsg)
    (s : State cfg) : CFEStatus × State cfg :=
  let status := svc.getAddress tableIndex
  if status ≠ .success ∧ status ≠ .tblInfoUpdated then (status, s.sendEvent (refused status))
  else (.success, s.setBuffer tableIndex (edit (s.tblBuffer tableIndex)))

def updateTableEnabledField (svc : Services cfg) (tableIndex : TblIndex cfg) (fieldValue : ℕ)
    (s : State cfg) : CFEStatus × State cfg :=
  updateTable svc tableIndex (fun b => { b with enabled := fieldValue })
    (.updateTblEnErr tableIndex) s

def updateTableDwellEntry (svc : Services cfg) (tableIndex : TblIndex cfg) (entryIndex : ℕ)
    (newLength newDelay : UInt16) (newDwellAddress : SymAddr cfg) (s : State cfg) :
    CFEStatus × State cfg :=
  updateTable svc tableIndex
    (fun b => { b with
      entry := Function.update b.entry entryIndex ⟨newLength, newDelay, newDwellAddress⟩ })
    (.updateTblDwellErr tableIndex) s

def updateTableSignature (svc : Services cfg) (tableIndex : TblIndex cfg)
    (newSignature : CharField cfg.signatureFieldLength) (s : State cfg) : CFEStatus × State cfg :=
  updateTable svc tableIndex
    (fun b => { b with signature := b.signature.copyTerminated newSignature })
    (.updateTblSigErr tableIndex) s

/-! ## Validation -/

structure Dwellable (m : MemoryMap) (length : UInt16) (addr : ℕ) : Prop where
  length_ok : length = 1 ∨ length = 2 ∨ length = 4
  range_ok : m.validRange addr length.toNat = true
  even : length = 2 → addr % 2 = 0
  dword : length = 4 → addr % 4 = 0

instance (m : MemoryMap) (length : UInt16) (addr : ℕ) : Decidable (Dwellable m length addr) :=
  decidable_of_iff ((length = 1 ∨ length = 2 ∨ length = 4) ∧
      m.validRange addr length.toNat = true ∧ (length = 2 → addr % 2 = 0) ∧
      (length = 4 → addr % 4 = 0))
    ⟨fun ⟨a, b, c, d⟩ => ⟨a, b, c, d⟩, fun ⟨a, b, c, d⟩ => ⟨a, b, c, d⟩⟩

theorem dwellable_iff (m : MemoryMap) {length : UInt16} (h0 : length ≠ 0) (addr : ℕ) :
    Dwellable m length addr ↔
      validFieldLength length = true ∧ m.validRange addr length.toNat = true ∧
      ¬(length = 4 ∧ verify32Aligned addr length.toNat ≠ true) ∧
      ¬(length = 2 ∧ verify16Aligned addr length.toNat ≠ true) := by
  have h32 : verify32Aligned addr length.toNat = true ↔ addr % 4 = 0 ∧ length.toNat % 4 = 0 :=
    verifyAligned_iff 4 _ _
  have h16 : verify16Aligned addr length.toNat = true ↔ addr % 2 = 0 ∧ length.toNat % 2 = 0 :=
    verifyAligned_iff 2 _ _
  rw [validFieldLength_iff, ne_eq, ne_eq, h32, h16]
  constructor
  · rintro ⟨hl, hv, he, hd⟩
    refine ⟨Or.inr hl, hv, ?_, ?_⟩
    · rintro ⟨h4, hn⟩
      exact hn ⟨hd h4, by rw [h4]; rfl⟩
    · rintro ⟨h2, hn⟩
      exact hn ⟨he h2, by rw [h2]; rfl⟩
  · rintro ⟨hl, hv, hd, he⟩
    refine ⟨hl.resolve_left h0, hv, ?_, ?_⟩
    · intro h2
      exact (by_contra fun hn => he ⟨h2, hn⟩ : addr % 2 = 0 ∧ length.toNat % 2 = 0).1
    · intro h4
      exact (by_contra fun hn => hd ⟨h4, hn⟩ : addr % 4 = 0 ∧ length.toNat % 4 = 0).1

theorem dwellable_congr {m m' : MemoryMap} (h : m.validRange = m'.validRange) (length : UInt16)
    (addr : ℕ) : Dwellable m length addr ↔ Dwellable m' length addr := by
  constructor
  · rintro ⟨hl, hv, he, hd⟩
    exact ⟨hl, h ▸ hv, he, hd⟩
  · rintro ⟨hl, hv, he, hd⟩
    exact ⟨hl, h.symm ▸ hv, he, hd⟩

theorem validTableEntry_iff (r : Resolver) (site : ℕ) (e : TableLoadEntry cfg) :
    validTableEntry r site e = .success ↔
      e.length = 0 ∨ ∃ a, resolveSymAddr r site e.dwellAddress 0 = (true, a) ∧
        Dwellable ⟨fun _ => none, r.memValidateRange site⟩ e.length a := by
  rw [validTableEntry]
  by_cases h0 : e.length = 0
  · simp [h0]
  rw [if_neg h0]
  rcases hr : resolveSymAddr r site e.dwellAddress 0 with ⟨found, a⟩
  cases found with
  | false => simp [h0, resolveError]
  | true =>
    simp only [h0, false_or, Prod.mk.injEq, true_and, exists_eq_left']
    have hd := dwellable_iff ⟨fun _ => none, r.memValidateRange site⟩ h0 a
    split_ifs with h1 h2 h3 h4 h5
    · exact absurd rfl h1
    · exact iff_of_false (by decide) fun h => h2 (hd.mp h).2.1
    · exact iff_of_false (by decide) fun h => h3 (hd.mp h).1
    · exact iff_of_false (by decide) fun h => (hd.mp h).2.2.1 h4
    · exact iff_of_false (by decide) fun h => (hd.mp h).2.2.2 h5
    · exact iff_of_true rfl (hd.mpr ⟨not_not.mp h3, not_not.mp h2, h4, h5⟩)

theorem resolveSymAddr_found (m : MemoryMap) (site : ℕ) (symAddr : SymAddr cfg) (old a : ℕ) :
    resolveSymAddr m.resolver site symAddr old = (true, a) ↔ m.resolve symAddr = some a := by
  rw [resolveSymAddr_map]
  cases m.resolve symAddr <;> simp

theorem dwellable_resolver (m : MemoryMap) (site : ℕ) (length : UInt16) (a : ℕ) :
    Dwellable ⟨fun _ => none, m.resolver.memValidateRange site⟩ length a ↔
      Dwellable m length a := by
  apply dwellable_congr
  rfl

theorem validTableEntry_map (m : MemoryMap) (site : ℕ) (e : TableLoadEntry cfg) :
    validTableEntry m.resolver site e = .success ↔
      e.length = 0 ∨ ∃ a, m.resolve e.dwellAddress = some a ∧ Dwellable m e.length a := by
  simp only [validTableEntry_iff, resolveSymAddr_found, dwellable_resolver]

theorem reader_found (m : MemoryMap) (behind : ℕ → List UInt8) (site : ℕ) (symAddr : SymAddr cfg)
    (old a : ℕ) : resolveSymAddr (m.reader cfg.maxPathLen behind) site symAddr old = (true, a) ↔
      m.resolveAt (behind site) symAddr = some a := by
  rw [resolveSymAddr_reader]
  cases m.resolveAt (behind site) symAddr <;> simp

theorem inField_found (m : MemoryMap) (site : ℕ) (symAddr : SymAddr cfg) (old a : ℕ) :
    resolveSymAddr (m.inField cfg) site symAddr old = (true, a) ↔
      symAddr.symName.Terminated ∧ m.resolve symAddr = some a :=
  (resolveSymAddr_found _ site symAddr old a).trans (within_resolve m symAddr a)

theorem validTableEntry_reader (m : MemoryMap) (behind : ℕ → List UInt8) (site : ℕ)
    (e : TableLoadEntry cfg) : validTableEntry (m.reader cfg.maxPathLen behind) site e = .success ↔
      e.length = 0 ∨
        ∃ a, m.resolveAt (behind site) e.dwellAddress = some a ∧ Dwellable m e.length a := by
  have hd : ∀ a, Dwellable ⟨fun _ => none, (m.reader cfg.maxPathLen behind).memValidateRange site⟩
      e.length a ↔ Dwellable m e.length a := dwellable_resolver m site e.length
  simp only [validTableEntry_iff, reader_found, hd]

/-- For an entry whose name ends in its field the bytes behind do not count. -/
theorem validTableEntry_ends (m : MemoryMap) (behind : ℕ → List UInt8) (site : ℕ)
    {e : TableLoadEntry cfg} (h : e.length ≠ 0 → e.dwellAddress.symName.Terminated) :
    validTableEntry (m.reader cfg.maxPathLen behind) site e = .success ↔
      validTableEntry m.resolver site e = .success := by
  rw [validTableEntry_reader, validTableEntry_map]
  by_cases h0 : e.length = 0
  · exact iff_of_true (Or.inl h0) (Or.inl h0)
  · rw [resolveAt_terminated m _ (h h0)]

theorem validTableEntry_length {r : Resolver} {site : ℕ} {e : TableLoadEntry cfg}
    (h : validTableEntry r site e = .success) :
    e.length = 0 ∨ e.length = 1 ∨ e.length = 2 ∨ e.length = 4 := by
  by_contra hn
  have h0 : e.length ≠ 0 := fun h0 => hn (Or.inl h0)
  have hf : validFieldLength e.length ≠ true := fun hf => hn ((validFieldLength_iff _).mp hf)
  simp only [validTableEntry, if_neg h0, if_pos hf] at h
  split_ifs at h <;> exact absurd h (by decide)

@[simp] theorem validTableEntry_null (r : Resolver) (site : ℕ) {e : TableLoadEntry cfg}
    (h : e.length = 0) : validTableEntry r site e = .success := by simp [validTableEntry, h]

/-- The scan goes through the active entries and stops behind them. -/
theorem checkLoop_iterate (r : Resolver) (tbl : DwellTableLoad cfg) :
    checkLoop r tbl cfg.dwellTableSize checkInit =
      (checkEntry r tbl)^[activeLength cfg fun i => (tbl.entry i).length] checkInit := by
  set k := activeLength cfg fun i => (tbl.entry i).length with hk
  have hle : k ≤ cfg.dwellTableSize := activeLength_le _ _
  have index : ∀ i ≤ k, ((checkEntry r tbl)^[i] checkInit).entryIndex = i := by
    intro i
    induction i with
    | zero => intro _; rfl
    | succ i ih =>
      intro hi
      have hs : (i + 1) % 65536 = i + 1 := Nat.mod_eq_of_lt (by have := cfg.size_le; omega)
      rw [Function.iterate_succ_apply', checkEntry]
      simp only [ih (by omega), hs]
      split_ifs <;> rfl
  have main : ∀ left i, i + left = cfg.dwellTableSize → i ≤ k →
      checkLoop r tbl left ((checkEntry r tbl)^[i] checkInit) =
        (checkEntry r tbl)^[k] checkInit := by
    intro left
    induction left with
    | zero =>
      intro i hi hik
      rw [show i = k by omega, checkLoop]
    | succ left ih =>
      intro i hi hik
      rw [checkLoop, index i hik, if_pos (by omega)]
      rcases Nat.eq_or_lt_of_le hik with rfl | hlt
      · have h0 : (tbl.entry k).length = 0 := active_stops (show k < _ by omega)
        rw [if_pos ⟨validTableEntry_null r _ h0, h0⟩]
      · have hne : (tbl.entry i).length ≠ 0 := active_ne_zero hlt
        rw [if_neg (by simp [hne]), ← Function.iterate_succ_apply' (checkEntry r tbl)]
        exact ih (i + 1) (by omega) hlt
  exact main _ 0 (by omega) (Nat.zero_le _)

abbrev Passes (r : Resolver) (tbl : DwellTableLoad cfg) (i : ℕ) : Prop :=
  validTableEntry r i (tbl.entry i) = .success

/-- What MD_CheckTableEntries knows after the first `i` entries: how many passed and how
many failed, and of the failures the first one. -/
structure Scanned (r : Resolver) (tbl : DwellTableLoad cfg) (i : ℕ) (c : CheckState) : Prop where
  entryIndex : c.entryIndex = i
  goodCount : c.goodCount = Nat.count (Passes r tbl) i
  badCount : c.badCount = Nat.count (fun j => ¬ Passes r tbl j) i
  verdict : (c.firstBadIndex = none ∧ c.firstErrorCode = .success ∧ c.events = [] ∧
      ∀ j < i, Passes r tbl j) ∨
    ∃ b < i, ¬ Passes r tbl b ∧ (∀ j < b, Passes r tbl j) ∧ c.firstBadIndex = some b ∧
      c.errorEntry = b ∧ c.firstErrorCode = validTableEntry r b (tbl.entry b) ∧
      c.events = [.tblEntryErr b (validTableEntry r b (tbl.entry b))]

theorem scanned_turn {r : Resolver} {tbl : DwellTableLoad cfg} {i : ℕ} {c : CheckState}
    (h : Scanned r tbl i c) (hi : i < 65535) : Scanned r tbl (i + 1) (checkEntry r tbl c) := by
  obtain ⟨hx, hg, hb, hv⟩ := h
  have hs : (i + 1) % 65536 = i + 1 := Nat.mod_eq_of_lt (by omega)
  rw [checkEntry]
  simp only [hx, hs]
  by_cases hp : Passes r tbl i
  · have hnext : (∀ j < i, Passes r tbl j) → ∀ j < i + 1, Passes r tbl j := by
      intro hall j hj
      rcases Nat.lt_succ_iff_lt_or_eq.mp hj with hj | rfl
      · exact hall j hj
      · exact hp
    rw [if_pos hp]
    refine ⟨rfl, by simp [Nat.count_succ, hg, hp], by simp [Nat.count_succ, hb, hp], ?_⟩
    rcases hv with ⟨hn, hc, he, hall⟩ | ⟨b, hbi, hrest⟩
    · exact Or.inl ⟨hn, hc, he, hnext hall⟩
    · exact Or.inr ⟨b, by omega, hrest⟩
  · rw [if_neg hp]
    rcases hv with ⟨hn, hc, he, hall⟩ | ⟨b, hbi, hnp, hall, hn, hrest⟩
    · rw [if_pos hn]
      refine ⟨rfl, by simp [Nat.count_succ, hg, hp], by simp [Nat.count_succ, hb, hp], ?_⟩
      exact Or.inr ⟨i, by omega, hp, hall, rfl, rfl, rfl, by rw [he]; rfl⟩
    · rw [if_neg (by simp [hn])]
      refine ⟨rfl, by simp [Nat.count_succ, hg, hp], by simp [Nat.count_succ, hb, hp], ?_⟩
      exact Or.inr ⟨b, by omega, hnp, hall, hn, hrest⟩

theorem scanned_init (r : Resolver) (tbl : DwellTableLoad cfg) : Scanned r tbl 0 checkInit :=
  ⟨rfl, by simp [checkInit], by simp [checkInit],
    Or.inl ⟨rfl, rfl, rfl, fun j hj => absurd hj (Nat.not_lt_zero j)⟩⟩

theorem checkLoop_scanned (r : Resolver) (tbl : DwellTableLoad cfg) :
    Scanned r tbl (activeLength cfg fun i => (tbl.entry i).length)
      (checkLoop r tbl cfg.dwellTableSize checkInit) := by
  have hle := activeLength_le cfg fun i => (tbl.entry i).length
  have main : ∀ i ≤ activeLength cfg fun i => (tbl.entry i).length,
      Scanned r tbl i ((checkEntry r tbl)^[i] checkInit) := by
    intro i
    induction i with
    | zero => exact fun _ => scanned_init r tbl
    | succ i ih =>
      intro hi
      rw [Function.iterate_succ_apply']
      exact scanned_turn (ih (by omega)) (by have := cfg.size_le; omega)
  rw [checkLoop_iterate]
  exact main _ le_rfl

theorem checkTableEntries_success (r : Resolver) (tbl : DwellTableLoad cfg) :
    (checkTableEntries r tbl).firstErrorCode = .success ↔
      ∀ i < activeLength cfg fun i => (tbl.entry i).length,
        validTableEntry r i (tbl.entry i) = .success := by
  rcases (checkLoop_scanned r tbl).verdict with ⟨-, hc, -, hall⟩ | ⟨b, hb, hnp, -, -, -, hc, -⟩
  · exact iff_of_true hc hall
  · exact iff_of_false (fun h => hnp (hc.symm.trans h)) fun h => hnp (h b hb)

theorem accepted_iff (r : Resolver) (tbl : DwellTableLoad cfg) :
    Accepted r tbl ↔ (tbl.enabled = dwellDisabled ∨ tbl.enabled = dwellEnabled) ∧
      tbl.signature.Terminated ∧ ∀ i < activeLength cfg fun i => (tbl.entry i).length,
        validTableEntry r i (tbl.entry i) = .success := by
  rw [← checkTableEntries_success, ← CharField.scanNul_lt_iff]
  simp only [Accepted, tableValidationFunc]
  by_cases he : tbl.enabled = dwellDisabled ∨ tbl.enabled = dwellEnabled
  · rw [if_neg (by tauto)]
    by_cases hs : tbl.signature.scanNul < cfg.signatureFieldLength
    · rw [if_neg (by omega)]
      simp [he, hs]
    · rw [if_pos (by omega)]
      simp [hs, sigLenTblError]
  · rw [if_pos (by tauto)]
    simp [he, tblEnaFlagError]

theorem Accepted.enabled {r : Resolver} {tbl : DwellTableLoad cfg} (h : Accepted r tbl) :
    tbl.enabled = dwellDisabled ∨ tbl.enabled = dwellEnabled := ((accepted_iff r tbl).mp h).1

theorem Accepted.terminated {r : Resolver} {tbl : DwellTableLoad cfg} (h : Accepted r tbl) :
    tbl.signature.Terminated := ((accepted_iff r tbl).mp h).2.1

/-- A table whose names end in their fields is validated the same wherever it stands. -/
theorem accepted_reader_iff (m : MemoryMap) (behind : ℕ → List UInt8) {tbl : DwellTableLoad cfg}
    (h : NamesEnd tbl) :
    Accepted (m.reader cfg.maxPathLen behind) tbl ↔ Accepted m.resolver tbl := by
  rw [accepted_iff, accepted_iff]
  apply and_congr_right
  intro _
  apply and_congr_right
  intro _
  apply forall₂_congr
  intro i hi
  exact validTableEntry_ends m behind i (h i (hi.trans_le (activeLength_le cfg _)))

theorem accepts_iff_accepted {M : TableMemory cfg} {r : Resolver} (hr : M.Answers cfg r)
    {tbl : DwellTableLoad cfg} (h : NamesEnd tbl) : Accepts M tbl ↔ Accepted r tbl := by
  obtain ⟨behind, rfl⟩ := hr
  rw [Accepts, TableMemory.resolverOf, accepted_reader_iff _ _ h, accepted_reader_iff _ _ h]

/-! ## The copy into the control structure -/

abbrev loadLengths (tbl : DwellTableLoad cfg) : ℕ → UInt16 := fun i => (tbl.entry i).length
abbrev loadDelays (tbl : DwellTableLoad cfg) : ℕ → UInt16 := fun i => (tbl.entry i).delay

/-- The address variable after `i` turns of the copy loop. -/
def addrAfter (r : Resolver) (tbl : DwellTableLoad cfg) : ℕ → ℕ
  | 0 => 0
  | i + 1 => (resolveSymAddr r i (tbl.entry i).dwellAddress (addrAfter r tbl i)).2

def copiedEntry (r : Resolver) (tbl : DwellTableLoad cfg) (i : ℕ) : DwellControlEntry :=
  ⟨(tbl.entry i).length, (tbl.entry i).delay, addrAfter r tbl (i + 1)⟩

theorem addrAfter_resolved {m : MemoryMap} {tbl : DwellTableLoad cfg} {i a : ℕ}
    (h : m.resolve (tbl.entry i).dwellAddress = some a) : addrAfter m.resolver tbl (i + 1) = a := by
  simp only [addrAfter, resolveSymAddr_map, h]

/-- Whatever `r` resolves, `r'` resolves to the same. -/
def FoundBy (cfg : Config) (r r' : Resolver) : Prop :=
  ∀ (site : ℕ) (symAddr : SymAddr cfg) (old old' a : ℕ),
    resolveSymAddr r site symAddr old = (true, a) → resolveSymAddr r' site symAddr old' = (true, a)

theorem resolver_foundBy (m : MemoryMap) : FoundBy cfg m.resolver m.resolver := by
  intro site symAddr old old' a h
  rwa [resolveSymAddr_found] at h ⊢

theorem reader_foundBy (m : MemoryMap) (behind : ℕ → List UInt8) :
    FoundBy cfg (m.reader cfg.maxPathLen behind) (m.reader cfg.maxPathLen behind) := by
  intro site symAddr old old' a h
  rwa [reader_found] at h ⊢

/-- What stands behind the fields does not matter for a name that ends in its own. -/
theorem inField_foundBy {m : MemoryMap} {r : Resolver} (h : m.Answers cfg r) :
    FoundBy cfg (m.inField cfg) r := by
  obtain ⟨behind, rfl⟩ := h
  intro site symAddr old old' a ha
  obtain ⟨hend, ha⟩ := (inField_found m site symAddr old a).mp ha
  exact (reader_found m behind site symAddr old' a).mpr ((resolveAt_terminated m _ hend).trans ha)

theorem addrAfter_found {r r' : Resolver} (hr : FoundBy cfg r r') {tbl : DwellTableLoad cfg}
    {i old a : ℕ} (h : resolveSymAddr r i (tbl.entry i).dwellAddress old = (true, a)) :
    addrAfter r' tbl (i + 1) = a := by
  rw [addrAfter, hr _ _ _ (addrAfter r' tbl i) _ h]

/-- The control structure after `i` turns of the copy loop, summary not yet updated. -/
def copiedUpTo (r : Resolver) (tbl : DwellTableLoad cfg) (c : DwellPacketControl cfg) (i : ℕ) :
    DwellPacketControl cfg :=
  { c with
    enabled := tbl.enabled % 65536
    signature := c.signature.copyTerminated tbl.signature
    entry := fun j => if j < i then copiedEntry r tbl j else c.entry j }

theorem lengths_copied (r : Resolver) (tbl : DwellTableLoad cfg) (c : DwellPacketControl cfg)
    {n i : ℕ} (h : i < n) : lengths (copiedUpTo r tbl c n) i = loadLengths tbl i := by
  simp [lengths, copiedUpTo, copiedEntry, h]

theorem delays_copied (r : Resolver) (tbl : DwellTableLoad cfg) (c : DwellPacketControl cfg)
    {n i : ℕ} (h : i < n) : delays (copiedUpTo r tbl c n) i = loadDelays tbl i := by
  simp [delays, copiedUpTo, copiedEntry, h]

theorem activeLength_copied (r : Resolver) (tbl : DwellTableLoad cfg)
    (c : DwellPacketControl cfg) :
    activeLength cfg (lengths (copiedUpTo r tbl c cfg.dwellTableSize)) =
      activeLength cfg (loadLengths tbl) :=
  activeLength_congr fun _ hi => lengths_copied r tbl c hi

theorem copyEntry_copiedUpTo (r : Resolver) (tbl : DwellTableLoad cfg)
    (c : DwellPacketControl cfg) {i : ℕ} (hi : i + 1 < 256) :
    copyEntry r tbl ⟨i, addrAfter r tbl i, copiedUpTo r tbl c i⟩ =
      ⟨i + 1, addrAfter r tbl (i + 1), copiedUpTo r tbl c (i + 1)⟩ := by
  have he : Function.update (copiedUpTo r tbl c i).entry i (copiedEntry r tbl i) =
      (copiedUpTo r tbl c (i + 1)).entry := by
    funext j
    by_cases h : j = i
    · subst h
      simp [copiedUpTo]
    · have hj : j < i + 1 ↔ j < i := by omega
      rw [Function.update_of_ne h]
      simp only [copiedUpTo, hj]
  have hm : (i + 1) % 256 = i + 1 := Nat.mod_eq_of_lt hi
  simp only [copyEntry, hm]
  congr 1
  exact congrArg (fun e => { copiedUpTo r tbl c i with entry := e }) he

private abbrev copying (cfg : Config) (c : CopyState cfg) : Bool :=
  c.entryIndex < cfg.dwellTableSize

private theorem copy_loop (r : Resolver) (tbl : DwellTableLoad cfg) (c : DwellPacketControl cfg)
    (hn : cfg.dwellTableSize ≤ 255) (left i : ℕ) (hi : i + left = cfg.dwellTableSize) :
    whileLoop (copying cfg) (copyEntry r tbl) (left + 1)
        ⟨i, addrAfter r tbl i, copiedUpTo r tbl c i⟩ =
      some ⟨cfg.dwellTableSize, addrAfter r tbl cfg.dwellTableSize,
        copiedUpTo r tbl c cfg.dwellTableSize⟩ := by
  induction left generalizing i with
  | zero =>
    obtain rfl : i = cfg.dwellTableSize := by omega
    exact while_exit (by simp) 0
  | succ left ih =>
    rw [while_enter (by simp; omega), copyEntry_copiedUpTo r tbl c (by omega)]
    apply ih (i + 1)
    omega

/-- The copy as a whole, for the tables that the eight-bit index can walk through. -/
theorem copyUpdatedTbl_eq (r : Resolver) (tbl : DwellTableLoad cfg) (c : DwellPacketControl cfg)
    (hn : cfg.dwellTableSize ≤ 255) {fuel : ℕ} (hf : cfg.dwellTableSize < fuel) :
    copyUpdatedTbl r fuel tbl c =
      some (updateDwellControlInfo (copiedUpTo r tbl c cfg.dwellTableSize)) := by
  have h := while_mono (show cfg.dwellTableSize + 1 ≤ fuel by omega)
    (copy_loop r tbl c hn cfg.dwellTableSize 0 (by omega))
  rw [copyUpdatedTbl]
  simp only [show (⟨0, 0, { c with
      enabled := tbl.enabled % 65536
      signature := c.signature.copyTerminated tbl.signature }⟩ : CopyState cfg) =
    ⟨0, addrAfter r tbl 0, copiedUpTo r tbl c 0⟩ from rfl]
  rw [h]
  rfl

/-- With 256 entries or more the index never gets past them. -/
theorem copyUpdatedTbl_diverges (r : Resolver) (tbl : DwellTableLoad cfg)
    (c : DwellPacketControl cfg) (hn : 256 ≤ cfg.dwellTableSize) (fuel : ℕ) :
    copyUpdatedTbl r fuel tbl c = none := by
  rw [copyUpdatedTbl,
    while_diverges (D := fun c : CopyState cfg => c.entryIndex < 256) ?_ (by simp)]
  · rfl
  · intro c hc
    refine ⟨by simp; omega, ?_⟩
    apply Nat.mod_lt _
    decide

theorem copyUpdatedTbl_some {r : Resolver} {fuel : ℕ} {tbl : DwellTableLoad cfg}
    {c c' : DwellPacketControl cfg} (h : copyUpdatedTbl r fuel tbl c = some c') :
    cfg.dwellTableSize ≤ 255 ∧
      c' = updateDwellControlInfo (copiedUpTo r tbl c cfg.dwellTableSize) := by
  have hn : cfg.dwellTableSize ≤ 255 := by
    by_contra hn
    rw [copyUpdatedTbl_diverges r tbl c (by omega)] at h
    cases h
  refine ⟨hn, ?_⟩
  -- Enough fuel gives the copy, and the loop has only one result.
  rw [copyUpdatedTbl, Option.map_eq_some_iff] at h
  obtain ⟨d, hd, rfl⟩ := h
  have hl := copy_loop r tbl c hn cfg.dwellTableSize 0 (by omega)
  rw [while_deterministic hd hl]

/-! ## Updates of the Table Services buffer -/

/-- Table Services grants access to the buffer of table `t`. -/
def Granted (svc : Services cfg) (t : TblIndex cfg) : Prop :=
  svc.getAddress t = .success ∨ svc.getAddress t = .tblInfoUpdated

instance (svc : Services cfg) (t : TblIndex cfg) : Decidable (Granted svc t) :=
  inferInstanceAs (Decidable (_ ∨ _))

theorem updateTable_eq (svc : Services cfg) (t : TblIndex cfg)
    (edit : DwellTableLoad cfg → DwellTableLoad cfg) (refused : CFEStatus → EventMsg)
    (s : State cfg) :
    updateTable svc t edit refused s =
      if Granted svc t then (.success, s.setBuffer t (edit (s.tblBuffer t)))
      else (svc.getAddress t, s.sendEvent (refused (svc.getAddress t))) := by
  simp only [updateTable]
  by_cases h : Granted svc t
  · rw [if_pos h, if_neg (by unfold Granted at h; tauto)]
  · rw [if_neg h, if_pos (by unfold Granted at h; tauto)]

end DwellTbl
