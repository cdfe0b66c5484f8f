import MemoryDwell.DwellTraces

/-! # Where a copied address comes from

Validation resolves each processed entry with a fresh variable. The copy resolves all
entries with one variable and does not look at the result, so that an entry behind the
first null entry whose symbol is unknown is stored with the address of an earlier one. -/
namespace CopiedAddresses

open DwellData DwellUtils DwellTbl DwellTraces

variable {cfg : Config}

/-- What entry `i` resolves to where it stands in its table. -/
def found (M : TableMemory cfg) (tbl : DwellTableLoad cfg) (i : ℕ) : Option ℕ :=
  M.resolveAt (M.behind tbl.entry i) (tbl.entry i).dwellAddress

/-- The last address among those that the entries before `i` resolve to, zero if none does. -/
def precedingAddr (M : TableMemory cfg) (tbl : DwellTableLoad cfg) (i : ℕ) : ℕ :=
  ((List.range i).filterMap (found M tbl)).getLastD 0

theorem precedingAddr_succ (M : TableMemory cfg) (tbl : DwellTableLoad cfg) (i : ℕ) :
    precedingAddr M tbl (i + 1) = (found M tbl i).getD (precedingAddr M tbl i) := by
  rw [precedingAddr, List.range_succ, List.filterMap_append]
  cases h : found M tbl i with
  | none => simp [h, precedingAddr]
  | some a => simp [h]

theorem addrAfter_eq (M : TableMemory cfg) (tbl : DwellTableLoad cfg) (i : ℕ) :
    addrAfter (M.resolverOf tbl) tbl i = precedingAddr M tbl i := by
  induction i with
  | zero => rfl
  | succ i ih =>
    rw [addrAfter, ih, precedingAddr_succ, TableMemory.resolverOf, resolveSymAddr_reader, found]
    cases M.resolveAt (M.behind tbl.entry i) (tbl.entry i).dwellAddress <;> rfl

theorem copiedEntry_eq (M : TableMemory cfg) (tbl : DwellTableLoad cfg) (i : ℕ) :
    copiedEntry (M.resolverOf tbl) tbl i = ⟨(tbl.entry i).length, (tbl.entry i).delay,
      (found M tbl i).getD (precedingAddr M tbl i)⟩ := by
  rw [copiedEntry, addrAfter_eq, precedingAddr_succ]

/-- Both tables are copied, and entry `i` of the copies is the same, whatever was in the
control structures before. -/
def CopiesAgree (M : TableMemory cfg) (tbl tbl' : DwellTableLoad cfg) (i : ℕ) : Prop :=
  ∀ c c', ∃ fuel d d', copyUpdatedTbl (M.resolverOf tbl) fuel tbl c = some d ∧
    copyUpdatedTbl (M.resolverOf tbl') fuel tbl' c' = some d' ∧ d.entry i = d'.entry i

theorem copiesAgree_iff_copied (hN : cfg.dwellTableSize ≤ 255) {i : ℕ}
    (hi : i < cfg.dwellTableSize) (M : TableMemory cfg) (tbl tbl' : DwellTableLoad cfg) :
    CopiesAgree M tbl tbl' i ↔
      copiedEntry (M.resolverOf tbl) tbl i = copiedEntry (M.resolverOf tbl') tbl' i := by
  have copied : ∀ r (tbl : DwellTableLoad cfg) c,
      (updateDwellControlInfo (copiedUpTo r tbl c cfg.dwellTableSize)).entry i =
        copiedEntry r tbl i := fun _ _ _ => if_pos hi
  constructor
  · intro h
    obtain ⟨fuel, d, d', hd, hd', he⟩ :=
      h (DwellApp.zeroControl cfg) (DwellApp.zeroControl cfg)
    obtain ⟨-, rfl⟩ := copyUpdatedTbl_some hd
    obtain ⟨-, rfl⟩ := copyUpdatedTbl_some hd'
    rwa [copied, copied] at he
  · intro h c c'
    have hf := Nat.lt_succ_self cfg.dwellTableSize
    refine ⟨_, _, _, copyUpdatedTbl_eq (M.resolverOf tbl) tbl c hN hf,
      copyUpdatedTbl_eq (M.resolverOf tbl') tbl' c' hN hf, ?_⟩
    rw [copied, copied, h]

/-- The entry is found at one address in both tables, or where it is not found the entries
before it leave this address behind. -/
def FoundAlike (M : TableMemory cfg) (tbl tbl' : DwellTableLoad cfg) (i : ℕ) : Prop :=
  match found M tbl i, found M tbl' i with
  | some a, some b => a = b
  | some a, none => a = precedingAddr M tbl' i
  | none, some b => precedingAddr M tbl i = b
  | none, none => precedingAddr M tbl i = precedingAddr M tbl' i

section SameEntry

variable {M : TableMemory cfg} {e : TableLoadEntry cfg} {i : ℕ}

theorem copiesAgree_iff (hN : cfg.dwellTableSize ≤ 255) (hi : i < cfg.dwellTableSize)
    {tbl tbl' : DwellTableLoad cfg} (he : tbl.entry i = e) (he' : tbl'.entry i = e) :
    CopiesAgree M tbl tbl' i ↔ FoundAlike M tbl tbl' i := by
  rw [copiesAgree_iff_copied hN hi, copiedEntry_eq, copiedEntry_eq, he, he', FoundAlike]
  cases found M tbl i <;> cases found M tbl' i <;> simp

theorem found_terminated {tbl : DwellTableLoad cfg} (he : tbl.entry i = e)
    (h : e.dwellAddress.symName.Terminated) : found M tbl i = M.resolve e.dwellAddress := by
  rw [found, he, resolveAt_terminated _ _ h]

theorem foundAlike_terminated {tbl tbl' : DwellTableLoad cfg} (he : tbl.entry i = e)
    (he' : tbl'.entry i = e) (h : e.dwellAddress.symName.Terminated) :
    FoundAlike M tbl tbl' i ↔
      (M.resolve e.dwellAddress).isSome ∨ precedingAddr M tbl i = precedingAddr M tbl' i := by
  rw [FoundAlike, found_terminated he h, found_terminated he' h]
  cases M.resolve e.dwellAddress with
  | none => simp
  | some a => simp

/-- The table with all entries before `i` null, at the same offset. -/
def nulledBefore (tbl : DwellTableLoad cfg) (offset i : ℕ) : DwellTableLoad cfg :=
  ⟨dwellDisabled, .zeros _, fun j => if j < i then loadEntry cfg 0 0 offset else tbl.entry j⟩

variable {tbl : DwellTableLoad cfg} {offset : ℕ}

theorem nulledBefore_entry {j : ℕ} (h : j < i) :
    (nulledBefore tbl offset i).entry j = loadEntry cfg 0 0 offset := if_pos h

theorem nulledBefore_kept {j : ℕ} (h : i ≤ j) : (nulledBefore tbl offset i).entry j = tbl.entry j :=
  if_neg h.not_gt

theorem nulledBefore_accepts (h : i ≠ 0) : Accepts M (nulledBefore tbl offset i) := by
  have hsig : 0 < cfg.signatureFieldLength := Nat.zero_lt_of_lt cfg.signature_min
  have hnull : loadLengths (nulledBefore tbl offset i) 0 = 0 := by
    rw [loadLengths, nulledBefore_entry (Nat.pos_of_ne_zero h)]
    rfl
  refine (accepted_iff _ _).mpr ⟨Or.inl rfl, CharField.zeros_terminated hsig, ?_⟩
  rw [activeLength_eq_zero hnull]
  exact fun j hj => absurd hj j.not_lt_zero

theorem nulledBefore_found : found M (nulledBefore tbl offset i) i = found M tbl i := by
  rw [found, found, nulledBefore_kept le_rfl]
  rw [M.behind_congr _ tbl.entry i fun j hj => nulledBefore_kept hj.le]

theorem nulledBefore_preceding (h : i ≠ 0) :
    precedingAddr M (nulledBefore tbl offset i) i = offset := by
  obtain ⟨k, rfl⟩ := Nat.exists_eq_succ_of_ne_zero h
  rw [precedingAddr_succ, found, nulledBefore_entry (Nat.lt_succ_self k)]
  simp [MemoryMap.resolveAt, loadEntry]

/-- No other entry counts for the copy of `e` at place `i`. -/
def CopiedAlone (M : TableMemory cfg) (e : TableLoadEntry cfg) (i : ℕ) : Prop :=
  ∀ tbl tbl' : DwellTableLoad cfg, Accepts M tbl → Accepts M tbl' →
    tbl.entry i = e → tbl'.entry i = e → CopiesAgree M tbl tbl' i

/-- All accepted tables with the entry find it at one address; the first entry, where it is
not found, is stored with zero. -/
def FoundAlone (M : TableMemory cfg) (e : TableLoadEntry cfg) (i : ℕ) : Prop :=
  ∃ a, ∀ tbl : DwellTableLoad cfg, Accepts M tbl → tbl.entry i = e →
    found M tbl i = some a ∨ i = 0 ∧ a = 0 ∧ found M tbl i = none

theorem found_of_copiedAlone (hN : cfg.dwellTableSize ≤ 255) (hi : i < cfg.dwellTableSize)
    (h0 : i ≠ 0) (h : CopiedAlone M e i) (he : tbl.entry i = e) : (found M tbl i).isSome := by
  have he0 : (nulledBefore tbl 0 i).entry i = e := (nulledBefore_kept le_rfl).trans he
  have he1 : (nulledBefore tbl 1 i).entry i = e := (nulledBefore_kept le_rfl).trans he
  have halike := (copiesAgree_iff hN hi he0 he1).mp
    (h _ _ (nulledBefore_accepts h0) (nulledBefore_accepts h0) he0 he1)
  rw [FoundAlike, nulledBefore_found, nulledBefore_found, nulledBefore_preceding h0,
    nulledBefore_preceding h0] at halike
  cases hf : found M tbl i with
  | none =>
    rw [hf] at halike
    exact absurd halike Nat.zero_ne_one
  | some a => rfl

theorem precedingAddr_zero (M : TableMemory cfg) (tbl : DwellTableLoad cfg) :
    precedingAddr M tbl 0 = 0 := rfl

theorem copiedAlone_iff (hN : cfg.dwellTableSize ≤ 255) (hi : i < cfg.dwellTableSize) :
    CopiedAlone M e i ↔ FoundAlone M e i := by
  constructor
  · intro h
    by_cases hex : ∃ tbl : DwellTableLoad cfg, Accepts M tbl ∧ tbl.entry i = e
    · obtain ⟨tbl, ha, he⟩ := hex
      refine ⟨(found M tbl i).getD 0, fun tbl' ha' he' => ?_⟩
      have halike := (copiesAgree_iff hN hi he he').mp (h tbl tbl' ha ha' he he')
      by_cases h0 : i = 0
      · subst h0
        rw [FoundAlike, precedingAddr_zero, precedingAddr_zero] at halike
        cases hf : found M tbl 0 <;> cases hf' : found M tbl' 0 <;> rw [hf, hf'] at halike
        · exact Or.inr ⟨rfl, rfl, rfl⟩
        · exact Or.inl (congrArg some halike.symm)
        · exact Or.inr ⟨rfl, halike, rfl⟩
        · exact Or.inl (congrArg some halike.symm)
      · obtain ⟨a, hf⟩ := Option.isSome_iff_exists.mp (found_of_copiedAlone hN hi h0 h he)
        obtain ⟨b, hf'⟩ := Option.isSome_iff_exists.mp (found_of_copiedAlone hN hi h0 h he')
        rw [FoundAlike, hf, hf'] at halike
        left
        rw [hf, hf']
        exact congrArg some halike.symm
    · exact ⟨0, fun tbl ha he => absurd ⟨tbl, ha, he⟩ hex⟩
  · rintro ⟨a, h⟩ tbl tbl' ha ha' he he'
    apply (copiesAgree_iff hN hi he he').mpr
    rw [FoundAlike]
    rcases h tbl ha he with hf | ⟨rfl, rfl, hf⟩ <;> rcases h tbl' ha' he' with hf' | ⟨h0, h1, hf'⟩
    · rw [hf, hf']
    · subst h0
      rw [hf, hf']
      exact h1
    · rw [hf, hf']
      exact precedingAddr_zero M tbl
    · rw [hf, hf']
      rfl

theorem foundAlone_terminated (h : e.dwellAddress.symName.Terminated) :
    FoundAlone M e i ↔ (M.resolve e.dwellAddress).isSome ∨ i = 0 := by
  constructor
  · rintro ⟨a, ha⟩
    by_cases h0 : i = 0
    · exact Or.inr h0
    · let tbl : DwellTableLoad cfg := nulledBefore ⟨0, .zeros _, fun _ => e⟩ 0 i
      have he : tbl.entry i = e := nulledBefore_kept le_rfl
      have hf := (ha tbl (nulledBefore_accepts h0) he).resolve_right fun hn => h0 hn.1
      rw [found_terminated he h] at hf
      exact Or.inl (Option.isSome_iff_exists.mpr ⟨a, hf⟩)
  · intro hc
    refine ⟨(M.resolve e.dwellAddress).getD 0, fun tbl _ he => ?_⟩
    rw [found_terminated he h]
    cases hr : M.resolve e.dwellAddress with
    | some a => exact Or.inl rfl
    | none =>
      rw [hr] at hc
      exact Or.inr ⟨hc.resolve_left (by simp), rfl, rfl⟩

end SameEntry

/-- Two accepted tables with the same entry `i` have the same copies of it exactly if they
find it alike, and what stands in the other entries does not matter at all exactly if every
accepted table finds it at one address. For a name that ends in its field this means that
the entry resolves, or that the entries before it leave the same address behind in both;
and that it resolves or is the first one. -/
theorem copied_entry_own (hN : cfg.dwellTableSize ≤ 255) (M : TableMemory cfg)
    (e : TableLoadEntry cfg) {i : ℕ} (hi : i < cfg.dwellTableSize) :
    (∀ tbl tbl' : DwellTableLoad cfg, Accepts M tbl → Accepts M tbl' →
      tbl.entry i = e → tbl'.entry i = e →
      (CopiesAgree M tbl tbl' i ↔ FoundAlike M tbl tbl' i) ∧
      (e.dwellAddress.symName.Terminated → (CopiesAgree M tbl tbl' i ↔
        (M.resolve e.dwellAddress).isSome ∨ precedingAddr M tbl i = precedingAddr M tbl' i))) ∧
    (CopiedAlone M e i ↔ FoundAlone M e i) ∧
    (e.dwellAddress.symName.Terminated →
      (CopiedAlone M e i ↔ (M.resolve e.dwellAddress).isSome ∨ i = 0)) := by
  refine ⟨fun tbl tbl' _ _ he he' => ⟨copiesAgree_iff hN hi he he', fun h => ?_⟩,
    copiedAlone_iff hN hi, fun h => ?_⟩
  · exact (copiesAgree_iff hN hi he he').trans (foundAlike_terminated he he' h)
  · exact (copiedAlone_iff hN hi).trans (foundAlone_terminated h)

namespace Counterexample

def config : Config := threeEntries

def unknown : TableLoadEntry config := ⟨4, 1, 0, ⟨[65, 0], rfl⟩⟩

def tbl (offset : ℕ) : DwellTableLoad config :=
  loadTable config 0 [loadEntry config 0 0 offset, unknown]

end Counterexample

/-- The unknown symbol is stored as the offset of the null entry before it. -/
theorem unknown_symbol_takes_other_address :
    let tbl := Counterexample.tbl 16
    let tbl' := Counterexample.tbl 20
    Accepted flatMemory.resolver tbl ∧ Accepted flatMemory.resolver tbl' ∧
    tbl.entry 1 = tbl'.entry 1 ∧
    ∃ d d', copyUpdatedTbl flatMemory.resolver 4 tbl (DwellApp.zeroControl _) = some d ∧
      copyUpdatedTbl flatMemory.resolver 4 tbl' (DwellApp.zeroControl _) = some d' ∧
      d.entry 1 = ⟨4, 1, 16⟩ ∧ d'.entry 1 = ⟨4, 1, 20⟩ := by
  refine ⟨by decide +kernel, by decide +kernel, rfl, _, _,
    copyUpdatedTbl_eq _ _ _ (by decide) (by decide),
    copyUpdatedTbl_eq _ _ _ (by decide) (by decide), ?_, ?_⟩
  · decide +kernel
  · decide +kernel

theorem copied_entry_own_unknown :
    CopiesAgree (flatTables _) (Counterexample.tbl 16)
      (loadTable _ 0 [loadEntry _ 0 0 16, Counterexample.unknown, loadEntry _ 4 2 8]) 1 ∧
    ¬ CopiesAgree (flatTables _) (Counterexample.tbl 16) (Counterexample.tbl 20) 1 := by
  have hend : Counterexample.unknown.dwellAddress.symName.Terminated := by decide
  have hagree := (copied_entry_own (by decide) (flatTables _) Counterexample.unknown
    (show 1 < Counterexample.config.dwellTableSize by decide)).1 (Counterexample.tbl 16)
  constructor
  · apply ((hagree _ (by decide +kernel) (by decide +kernel) rfl rfl).2 hend).mpr
    exact Or.inr rfl
  · intro h
    rcases ((hagree _ (by decide +kernel) (by decide +kernel) rfl rfl).2 hend).mp h with h | h
    · exact absurd h (by decide +kernel)
    · exact absurd h (by decide +kernel)

end CopiedAddresses
