import MemoryDwell.WorkingCopy

/-! # Recovery after a reset

A reset recovers the buffers if MD_TableValidationFunc accepts them. Every command keeps
its table acceptable, but for a Jam onto the first null entry, which is where validation
used to end, so that the entries behind it come into view, and a Jam behind a name without a
NUL, which is read on into the new entry. -/
namespace ResetRecovery

open DwellData DwellUtils DwellTbl DwellCmds DwellApp DwellRuns DwellStreams StreamInit
open DwellTraces WorkingCopy TransitionRuns

variable {cfg : Config}

def rewritten (tbl : DwellTableLoad cfg) (e : ℕ) (load : TableLoadEntry cfg) : DwellTableLoad cfg :=
  { tbl with entry := Function.update tbl.entry e load }

/-- If entry `e` is the first null entry, the entries between it and the next null entry
are valid once it is overwritten. -/
def UncoversValid (M : TableMemory cfg) (tbl : DwellTableLoad cfg) (e : ℕ)
    (load : TableLoadEntry cfg) : Prop :=
  e = activeLength cfg (loadLengths tbl) → ∀ i < cfg.dwellTableSize, e < i →
    (∀ j ≤ i, e < j → (tbl.entry j).length ≠ 0) →
      validTableEntry (M.resolverOf (rewritten tbl e load)) i (tbl.entry i) = .success

/-- The active entries whose names go on behind their fields are valid with what they are
read as once entry `e` is overwritten. -/
def ReadsValid (M : TableMemory cfg) (tbl : DwellTableLoad cfg) (e : ℕ)
    (load : TableLoadEntry cfg) : Prop :=
  ∀ i < activeLength cfg (loadLengths tbl),
    i < activeLength cfg (loadLengths (rewritten tbl e load)) → i ≠ e →
      ¬ (tbl.entry i).dwellAddress.symName.Terminated →
        validTableEntry (M.resolverOf (rewritten tbl e load)) i (tbl.entry i) = .success

/-- An accepted Jam of a non-null entry uncovers valid entries only, and an accepted Jam
makes no unterminated name one of something invalid. -/
def RecoveryKept (M : TableMemory cfg) (l : Label cfg) (t : TblIndex cfg) (x : Stream cfg) :
    Prop :=
  match opOf l t with
  | .jam e _ load true =>
    (load.length ≠ 0 → UncoversValid M x.buffer e load) ∧ ReadsValid M x.buffer e load
  | _ => True

/-- A table that is loaded has been validated where it stands. -/
def LoadsInPlace (M : TableMemory cfg) (l : Label cfg) (t : TblIndex cfg) : Prop :=
  match opOf l t with
  | .load tbl _ => Accepts M tbl
  | _ => True

instance (M : TableMemory cfg) (tbl : DwellTableLoad cfg) (e : ℕ) (load : TableLoadEntry cfg) :
    Decidable (UncoversValid M tbl e load) := by
  unfold UncoversValid
  infer_instance

instance (M : TableMemory cfg) (tbl : DwellTableLoad cfg) (e : ℕ) (load : TableLoadEntry cfg) :
    Decidable (ReadsValid M tbl e load) := by
  unfold ReadsValid
  infer_instance

instance (M : TableMemory cfg) (l : Label cfg) (t : TblIndex cfg) (x : Stream cfg) :
    Decidable (RecoveryKept M l t x) := by
  unfold RecoveryKept
  induction opOf l t using StreamOp.byAnswer <;> infer_instance

instance (M : TableMemory cfg) (l : Label cfg) (t : TblIndex cfg) :
    Decidable (LoadsInPlace M l t) := by
  unfold LoadsInPlace
  induction opOf l t using StreamOp.byAnswer <;> infer_instance

theorem readsValid_of_end (M : TableMemory cfg) {tbl : DwellTableLoad cfg} (h : NamesEnd tbl)
    (e : ℕ) (load : TableLoadEntry cfg) : ReadsValid M tbl e load := fun i hi _ _ hn =>
  absurd (h i (hi.trans_le (activeLength_le cfg _)) (active_ne_zero hi)) hn

/-- Where all names end in their fields it is the uncovered entries alone that count. -/
theorem recoveryKept_of_end {M : TableMemory cfg} {l : Label cfg} {t : TblIndex cfg}
    {x : Stream cfg} (h : NamesEnd x.buffer) :
    RecoveryKept M l t x ↔ ∀ e new load, opOf l t = .jam e new load true → load.length ≠ 0 →
      UncoversValid M x.buffer e load := by
  rw [RecoveryKept]
  cases hop : opOf l t with
  | jam e new load granted =>
    cases granted with
    | true =>
      simp only [and_iff_left (readsValid_of_end M h e load)]
      constructor
      · rintro hv _ _ _ ⟨⟩
        exact hv
      · exact fun hv => hv e new load rfl
    | false => simp
  | _ => simp

@[simp] theorem rewritten_self (tbl : DwellTableLoad cfg) (e : ℕ) (load : TableLoadEntry cfg) :
    (rewritten tbl e load).entry e = load := Function.update_self _ _ _

theorem rewritten_of_ne (tbl : DwellTableLoad cfg) {e j : ℕ} (h : j ≠ e)
    (load : TableLoadEntry cfg) : (rewritten tbl e load).entry j = tbl.entry j :=
  Function.update_of_ne h _ _

section Accepted

variable {tbl : DwellTableLoad cfg}

theorem accepted_withEnabled {r : Resolver} (h : Accepted r tbl) {enabled : ℕ}
    (he : enabled = dwellDisabled ∨ enabled = dwellEnabled) :
    Accepted r { tbl with enabled := enabled } := by
  obtain ⟨-, hs, hv⟩ := (accepted_iff r tbl).mp h
  exact (accepted_iff r _).mpr ⟨he, hs, hv⟩

theorem accepted_withSignature {r : Resolver} (h : Accepted r tbl)
    (signature : CharField cfg.signatureFieldLength) :
    Accepted r { tbl with signature := tbl.signature.copyTerminated signature } := by
  obtain ⟨he, -, hv⟩ := (accepted_iff r tbl).mp h
  have hn : 0 < cfg.signatureFieldLength := Nat.lt_of_lt_of_le (by decide) cfg.signature_min
  exact (accepted_iff r _).mpr ⟨he, CharField.copyTerminated_terminated hn _ _, hv⟩

theorem active_behind {e i : ℕ} {load : TableLoadEntry cfg} (h0 : load.length ≠ 0)
    (hterm : e = activeLength cfg (loadLengths tbl)) (hi : i < cfg.dwellTableSize)
    (hnz : ∀ j ≤ i, e < j → (tbl.entry j).length ≠ 0) :
    i < activeLength cfg (loadLengths (rewritten tbl e load)) := by
  refine lt_activeLength.mpr ⟨hi, fun j hj => ?_⟩
  rcases Nat.lt_trichotomy j e with hlt | rfl | hgt
  · rw [loadLengths, rewritten_of_ne tbl hlt.ne]
    exact active_ne_zero (hterm ▸ hlt)
  · rwa [loadLengths, rewritten_self]
  · rw [loadLengths, rewritten_of_ne tbl hgt.ne']
    exact hnz j hj hgt

theorem behind_of_active {e i : ℕ} {load : TableLoadEntry cfg}
    (hi : i < activeLength cfg (loadLengths (rewritten tbl e load))) (hie : i ≠ e)
    (hold : ¬ i < activeLength cfg (loadLengths tbl)) :
    e = activeLength cfg (loadLengths tbl) ∧ i < cfg.dwellTableSize ∧ e < i ∧
      ∀ j ≤ i, e < j → (tbl.entry j).length ≠ 0 := by
  obtain ⟨hin, hl⟩ := lt_activeLength.mp hi
  have hnz : ∀ j ≤ i, j ≠ e → (tbl.entry j).length ≠ 0 := by
    intro j hj hje
    rw [← rewritten_of_ne tbl hje load]
    exact hl j hj
  have hterm : e = activeLength cfg (loadLengths tbl) := by
    by_contra hne
    have hk : activeLength cfg (loadLengths tbl) < cfg.dwellTableSize := by omega
    exact hnz _ (by omega) (Ne.symm hne) (active_stops hk)
  exact ⟨hterm, hin, by omega, fun j hj hej => hnz j hj hej.ne'⟩

/-- A null entry or one that is valid wherever it stands keeps the table acceptable exactly if
it uncovers nothing invalid and makes no other entry so. -/
theorem accepted_rewritten_iff {M : TableMemory cfg} (h : Accepts M tbl) {e : ℕ}
    {load : TableLoadEntry cfg} (hload : load.length ≠ 0 →
      load.dwellAddress.symName.Terminated ∧ validTableEntry M.resolver e load = .success) :
    Accepts M (rewritten tbl e load) ↔
      (load.length ≠ 0 → UncoversValid M tbl e load) ∧ ReadsValid M tbl e load := by
  obtain ⟨he, hs, hv⟩ := (accepted_iff _ tbl).mp h
  constructor
  · intro hacc
    have hv' := ((accepted_iff _ _).mp hacc).2.2
    constructor
    · intro h0 hterm i hi hei hnz
      have hvi := hv' i (active_behind h0 hterm hi hnz)
      rwa [rewritten_of_ne tbl hei.ne'] at hvi
    · intro i _ hi hie _
      have hvi := hv' i hi
      rwa [rewritten_of_ne tbl hie] at hvi
  · rintro ⟨hu, hr⟩
    apply (accepted_iff (M.resolverOf (rewritten tbl e load)) (rewritten tbl e load)).mpr
    refine ⟨he, hs, fun i hi => ?_⟩
    by_cases hie : i = e
    · rw [hie, rewritten_self]
      exact (validTableEntry_ends _ _ e fun h0 => (hload h0).1).mpr (by
        by_cases h0 : load.length = 0
        · exact validTableEntry_null _ _ h0
        · exact (hload h0).2)
    · rw [rewritten_of_ne tbl hie]
      by_cases hold : i < activeLength cfg (loadLengths tbl)
      · by_cases hend : (tbl.entry i).dwellAddress.symName.Terminated
        · have hvi := (validTableEntry_ends _ _ i fun _ => hend).mp (hv i hold)
          exact (validTableEntry_ends _ _ i fun _ => hend).mpr hvi
        · exact hr i hold hi hie hend
      · obtain ⟨hterm, hin, hei, hnz⟩ := behind_of_active hi hie hold
        have h0 : load.length ≠ 0 := by
          have hlen : ((rewritten tbl e load).entry e).length ≠ 0 :=
            (lt_activeLength.mp hi).2 e hei.le
          rwa [rewritten_self] at hlen
        exact hu h0 hterm i hin hei hnz

end Accepted

theorem accepted_move {M : TableMemory cfg} {l : Label cfg} {t : TblIndex cfg} {x y : Stream cfg}
    (env : Environment M.toMemoryMap l.services l.input) (ha : LoadsInPlace M l t)
    (hx : Accepts M x.buffer) (mv : StreamMove l t x y) :
    Accepts M y.buffer ↔ RecoveryKept M l t x := by
  have hs := mv.step
  simp only [LoadsInPlace] at ha
  simp only [RecoveryKept]
  cases hop : opOf l t with
  | idle =>
    rw [hop] at hs
    exact iff_of_true (hs.1 ▸ hx) trivial
  | start granted =>
    rw [hop] at hs
    refine iff_of_true ?_ trivial
    rw [hs.1]
    cases granted with
    | true => exact accepted_withEnabled hx (Or.inr rfl)
    | false => exact hx
  | stop granted =>
    rw [hop] at hs
    refine iff_of_true ?_ trivial
    rw [hs.1]
    cases granted with
    | true => exact accepted_withEnabled hx (Or.inl rfl)
    | false => exact hx
  | jam e new load granted =>
    rw [hop] at hs
    rw [hs.1]
    cases granted with
    | true =>
      apply accepted_rewritten_iff hx
      intro h0
      obtain ⟨hend, hnew⟩ := opOf_jam_agrees env hop h0
      exact ⟨hend, (validTableEntry_map _ e load).mpr (Or.inr ⟨_, hnew⟩)⟩
    | false => exact iff_of_true hx trivial
  | sign signature granted =>
    rw [hop] at hs
    refine iff_of_true ?_ trivial
    rw [hs.1]
    cases granted with
    | true => exact accepted_withSignature hx signature
    | false => exact hx
  | load tbl copied =>
    rw [hop] at hs ha
    refine iff_of_true ?_ trivial
    rw [hs.1]
    exact ha
  | pass =>
    rw [hop] at hs
    obtain ⟨fuel, p, -, rfl, -⟩ := hs
    exact iff_of_true hx trivial

/-- After a reset that recovers `tbl`, the recovery branch takes it over. -/
def RecoveryAccepts (M : TableMemory cfg) (t : TblIndex cfg) (tbl : DwellTableLoad cfg) : Prop :=
  ∀ calls fuel x, calls.register t = .tblInfoRecoveredTbl → calls.recovered t = tbl →
    calls.getAddress t = .tblInfoUpdated → x.recoveredValidTable = false →
    (∀ y, recoverTable (M.resolverOf tbl) calls fuel t x = some y →
      y.recoveredValidTable = true) ∧
    (cfg.dwellTableSize ≤ 255 → cfg.dwellTableSize < fuel →
      ∃ y, recoverTable (M.resolverOf tbl) calls fuel t x = some y)

theorem accepted_recovers {M : TableMemory cfg} {tbl : DwellTableLoad cfg}
    (h : Accepts M tbl) (t : TblIndex cfg) : RecoveryAccepts M t tbl := by
  rintro calls fuel x hr rfl hg hx
  constructor
  · intro y hy
    exact (recoverTable_some hy hr hx).2.1.mpr ⟨hr, hg, h⟩
  · intro hn hf
    have hv : (tableValidationFunc (M.resolverOf (calls.recovered t))
      (some (calls.recovered t))).1 = .success := h
    simp only [recoverTable, hg, ne_eq, not_true, if_false, State.setBuffer_self, hv, if_true,
      copyAndStart, copyUpdatedTbl_eq _ _ _ hn hf, Option.map_some]
    exact ⟨_, rfl⟩

namespace Counterexample

def config : Config := threeEntries

def tbl : DwellTableLoad config :=
  loadTable config 0 [loadEntry config 0 0 0, loadEntry config 3 1 5]

def inputs : List (Services config × Input config) :=
  [(smallServices config .success, jamMsg config 1 1 1 1 16)]

end Counterexample

end ResetRecovery
