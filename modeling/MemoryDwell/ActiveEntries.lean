import MemoryDwell.DwellTraces

/-! # Active entries

Which entries are dwelled on is decided by `AddrCount`, and that is decided later than
the entries are checked: validation stops at the first null entry, the copy takes them
all, and a Jam onto that null entry brings the ones behind it into play. -/
namespace ActiveEntries

open DwellData DwellUtils DwellTbl DwellPkts DwellCmds DwellApp DwellRuns DwellStreams
open StreamInit DwellTraces TransitionRuns

variable {cfg : Config}

def AllActive (V : DwellControlEntry → Prop) (c : DwellPacketControl cfg) : Prop :=
  ∀ i < c.addrCount, V (c.entry i)

/-- What a step must see to, for the active entries to meet `V` afterwards: of the entries
that it makes active, and of one it overwrites without counting anew. -/
def KeepsActive (V : DwellControlEntry → Prop) (l : Label cfg) (t : TblIndex cfg)
    (x : Stream cfg) : Prop :=
  match opOf l t with
  | .load tbl true =>
    ∀ i < activeLength cfg (loadLengths tbl), V (copiedEntry l.services.toResolver tbl i)
  | .jam e new _ true => ∀ i < activeLength cfg (lengths (written x.control e new)),
      V ((written x.control e new).entry i)
  | .jam e new _ false => e < x.control.addrCount → V new
  | _ => True

section Steps

variable {V : DwellControlEntry → Prop}

theorem AllActive.of_contents {c d : DwellPacketControl cfg} (h : AllActive V c)
    (hcd : SameContents c d) : AllActive V d := by
  rw [AllActive, hcd.addrCount, hcd.entry]
  exact h

theorem allActive_update (c : DwellPacketControl cfg) :
    AllActive V (updateDwellControlInfo c) ↔
      ∀ i < activeLength cfg (lengths c), V (c.entry i) := by
  rw [updateDwellControlInfo_eq]
  rfl

theorem allActive_adopt (r : Resolver) (tbl : DwellTableLoad cfg) (c : DwellPacketControl cfg) :
    AllActive V (adopt r tbl c) ↔
      ∀ i < activeLength cfg (loadLengths tbl), V (copiedEntry r tbl i) := by
  have hc := adopt_contents r tbl c
  have hn := activeLength_le cfg (loadLengths tbl)
  have hcopied : ∀ i < activeLength cfg (loadLengths tbl),
      (copiedUpTo r tbl c cfg.dwellTableSize).entry i = copiedEntry r tbl i := by
    intro i hi
    simp [copiedUpTo, hi.trans_le hn]
  constructor
  · intro h i hi
    have hv := (allActive_update _).mp (h.of_contents hc.symm) i (by rwa [activeLength_copied])
    rwa [hcopied i hi] at hv
  · intro h
    refine AllActive.of_contents ((allActive_update _).mpr ?_) hc
    intro i hi
    rw [activeLength_copied] at hi
    rw [hcopied i hi]
    exact h i hi

theorem allActive_written {c : DwellPacketControl cfg} (h : AllActive V c) (e : ℕ)
    (new : DwellControlEntry) :
    AllActive V (written c e new) ↔ (e < c.addrCount → V new) := by
  constructor
  · intro hw he
    simpa [written] using hw e he
  · intro hnew i hi
    by_cases hie : i = e
    · subst hie
      simpa [written] using hnew hi
    · simpa [written, hie] using h i hi

theorem allActive_move {l : Label cfg} {t : TblIndex cfg} {x y : Stream cfg}
    (hx : AllActive V x.control) (m : StreamMove l t x y) :
    AllActive V y.control ↔ KeepsActive V l t x := by
  have hs := m.step
  rw [KeepsActive]
  cases hop : opOf l t with
  | jam e new load granted =>
    rw [hop] at hs
    obtain ⟨rfl, -⟩ := hs
    cases granted with
    | true => exact allActive_update _
    | false => exact allActive_written hx e new
  | load tbl copied =>
    rw [hop] at hs
    obtain ⟨rfl, -⟩ := hs
    cases copied with
    | true => exact allActive_adopt _ tbl x.control
    | false => exact iff_of_true hx trivial
  | pass =>
    rw [hop] at hs
    obtain ⟨fuel, p, hp, rfl, -⟩ := hs
    exact iff_of_true (hx.of_contents (dwellTable_contents hp)) trivial
  | _ =>
    rw [hop] at hs
    exact iff_of_true (hs.1 ▸ hx) trivial

end Steps

/-- The entry was checked: it can be dwelled on. -/
def Checked (m : MemoryMap) (e : DwellControlEntry) : Prop :=
  Dwellable m e.length e.resolvedAddress

/-- An accepted Jam brings no unchecked entry into the active part, and no refused Jam
nulls an active entry. -/
def NothingUnchecked (m : MemoryMap) (l : Label cfg) (t : TblIndex cfg) (x : Stream cfg) :
    Prop :=
  match opOf l t with
  | .jam e new _ true => ∀ i < activeLength cfg (lengths (written x.control e new)),
      x.control.addrCount ≤ i → i ≠ e → Checked m (x.control.entry i)
  | .jam e new _ false => new.length = 0 → x.control.addrCount ≤ e
  | _ => True

instance (m : MemoryMap) (e : DwellControlEntry) : Decidable (Checked m e) :=
  inferInstanceAs (Decidable (Dwellable m e.length e.resolvedAddress))

instance (m : MemoryMap) (l : Label cfg) (t : TblIndex cfg) (x : Stream cfg) :
    Decidable (NothingUnchecked m l t x) := by
  unfold NothingUnchecked
  induction opOf l t using StreamOp.byAnswer <;> infer_instance

theorem jamWrite_checked {svc : Services cfg} {m : MemoryMap} (hm : svc.toResolver = m.resolver)
    {p : CmdJamPayload cfg} {new : DwellControlEntry} {load : TableLoadEntry cfg}
    (h : jamWrite svc p = some (new, load)) (h0 : new.length ≠ 0) : Checked m new := by
  rcases jamWrite_cases h with ⟨rfl, -⟩ | ⟨a, hl, hc, rfl, -⟩
  · exact absurd rfl h0
  · exact ((jamChecks_map hm hl a).mp hc).2

theorem accepted_checked {m : MemoryMap} {tbl : DwellTableLoad cfg} (h : Accepted m.resolver tbl)
    {i : ℕ} (hi : i < activeLength cfg (loadLengths tbl)) :
    Checked m (copiedEntry m.resolver tbl i) := by
  have hv := ((accepted_iff m.resolver tbl).mp h).2.2 i hi
  obtain ⟨a, hr, hd⟩ := ((validTableEntry_map m i _).mp hv).resolve_left (active_ne_zero hi)
  simpa [Checked, copiedEntry, addrAfter_resolved hr] using hd

theorem keepsActive_iff {m : MemoryMap} {l : Label cfg} {t : TblIndex cfg} {x : Stream cfg}
    (hm : l.services.toResolver = m.resolver) (ha : LoadAccepted m.resolver l t x)
    (hs : OpSound l.services t (opOf l t)) (hx : AllActive (Checked m) x.control) :
    KeepsActive (Checked m) l t x ↔ NothingUnchecked m l t x := by
  simp only [LoadAccepted] at ha
  unfold KeepsActive NothingUnchecked
  cases hop : opOf l t with
  | jam e new load granted =>
    rw [hop] at hs
    obtain ⟨-, he, p, hw⟩ := hs
    have hnew := jamWrite_checked hm hw
    cases granted with
    | true =>
      constructor
      · intro h i hi _ hie
        simpa [written, hie] using h i hi
      · intro h i hi
        by_cases hie : i = e
        · subst hie
          have h0 := active_ne_zero hi
          simp only [written, Function.update_self, lengths] at h0 ⊢
          exact hnew h0
        · simp only [written, Function.update_of_ne hie]
          by_cases hc : i < x.control.addrCount
          · exact hx i hc
          · exact h i hi (Nat.le_of_not_lt hc) hie
    | false =>
      constructor
      · intro h h0
        by_contra hn
        have hd := (h (Nat.lt_of_not_le hn)).length_ok
        rw [h0] at hd
        exact absurd hd (by decide)
      · intro h hc
        exact hnew fun h0 => absurd (h h0) (Nat.not_le.mpr hc)
  | load tbl copied =>
    rw [hop] at ha
    cases copied with
    | true =>
      refine iff_of_true (fun i hi => ?_) trivial
      rw [hm]
      exact accepted_checked ha hi
    | false => exact Iff.rfl
  | _ => exact Iff.rfl

theorem started_checked {m : MemoryMap} {calls : InitCalls cfg} {s : State cfg}
    (h : Started m.resolver calls s) (t : TblIndex cfg) :
    AllActive (Checked m) (s.dwellTables t) := by
  rw [started_control h t]
  split_ifs with hr
  · exact (allActive_adopt m.resolver _ _).mpr fun i hi => accepted_checked hr.2.2 hi
  · refine (allActive_update _).mpr fun i hi => ?_
    rw [activeLength_eq_zero rfl] at hi
    exact absurd hi (Nat.not_lt_zero i)

namespace Counterexample

def config : Config := threeEntries

def tbl : DwellTableLoad config :=
  loadTable config 0 [loadEntry config 0 0 0, loadEntry config 3 1 5]

def inputs : List (Services config × Input config) :=
  [(smallServices config .success, jamMsg config 1 1 1 1 16)]

end Counterexample

end ActiveEntries
