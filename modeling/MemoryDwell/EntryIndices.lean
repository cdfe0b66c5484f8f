import MemoryDwell.CollectedBytes

/-! # Indices into `Entry`

The position of a stream and the number of its active entries change independently: a
Jam shortens a table behind its position. Both stay inside the table, and a rate needs
an active entry, so that the last active entry is one. -/
namespace EntryIndices

open DwellData DwellUtils DwellTbl DwellPkts DwellApp DwellRuns DwellStreams StreamInit
open DwellTraces PacketBounds CollectedBytes FueledLoop TransitionRuns

variable {cfg : Config}

structure InTable (c : DwellPacketControl cfg) : Prop where
  addrCount : c.addrCount ≤ cfg.dwellTableSize
  currentEntry : c.currentEntry < cfg.dwellTableSize
  rate : 0 < c.rate → 1 ≤ c.addrCount

theorem InTable.of_contents {c d : DwellPacketControl cfg} (h : InTable c)
    (hcd : SameContents c d) (hd : d.currentEntry < cfg.dwellTableSize) : InTable d := by
  refine ⟨hcd.addrCount.trans_le h.addrCount, hd, ?_⟩
  rw [hcd.rate, hcd.addrCount]
  exact h.rate

theorem inTable_update {c : DwellPacketControl cfg} (h : c.currentEntry < cfg.dwellTableSize) :
    InTable (updateDwellControlInfo c) := by
  rw [updateDwellControlInfo_eq]
  refine ⟨activeLength_le cfg _, h, ?_⟩
  intro hr
  obtain ⟨i, hi, -⟩ := PrefixSums.sum_range_pos_iff.mp hr
  exact Nat.one_le_of_lt hi

theorem inTable_adopt (r : Resolver) (tbl : DwellTableLoad cfg) {c : DwellPacketControl cfg}
    (h : c.currentEntry < cfg.dwellTableSize) : InTable (adopt r tbl c) := by
  have hu : InTable (updateDwellControlInfo (copiedUpTo r tbl c cfg.dwellTableSize)) :=
    inTable_update h
  apply hu.of_contents (adopt_contents r tbl c)
  rw [adopt]
  split_ifs
  · exact cfg.size_pos
  · exact h

theorem inLoop_current {svc : Services cfg} {t : TblIndex cfg} {p q : Pass cfg}
    (hn : p.control.addrCount ≤ cfg.dwellTableSize)
    (hc : p.control.currentEntry < p.control.addrCount) (h : InLoop svc t p q) :
    q.control.currentEntry < p.control.addrCount := by
  induction h with
  | enter => exact hc
  | turn _ _ ih =>
    rw [dwellStep_control]
    exact advance_currentEntry_lt (hn.trans cfg.size_le) ih

theorem inTable_pass {svc : Services cfg} {fuel : ℕ} {t : TblIndex cfg} {p q : Pass cfg}
    (hp : InTable p.control) (h : dwellTable svc fuel t p = some q) : InTable q.control := by
  apply hp.of_contents (dwellTable_contents h)
  rcases dwellTable_cases h with ⟨-, rfl⟩ | ⟨-, -, -, rfl⟩ | ⟨-, -, hc, hw⟩
  · exact hp.currentEntry
  · exact cfg.size_pos
  · exact (inLoop_current hp.addrCount hc (while_inLoop hw)).trans_le hp.addrCount

/-- The entry that an action consults is one of the table. -/
def Indexed : Action cfg → Prop
  | .sample _ entry _ _ _ => entry < cfg.dwellTableSize
  | .restart _ entry => 0 ≤ entry ∧ entry < cfg.dwellTableSize
  | _ => True

theorem last_indexed {c : DwellPacketControl cfg} (h : InTable c) (hr : 0 < c.rate) :
    0 ≤ (c.addrCount : ℤ) - 1 ∧ (c.addrCount : ℤ) - 1 < cfg.dwellTableSize := by
  have hn := h.addrCount
  have h1 := h.rate hr
  omega

theorem pass_indexed {svc : Services cfg} {fuel : ℕ} {t : TblIndex cfg} {p q : Pass cfg}
    (hp : InTable p.control) (ha : p.actions = []) (h : dwellTable svc fuel t p = some q) :
    ∀ a ∈ q.actions, Indexed a := by
  rcases dwellTable_cases h with ⟨-, rfl⟩ | ⟨-, hr, -, rfl⟩ | ⟨-, -, hc, hw⟩
  · simp [ha]
  · intro a hmem
    simp only [sendFullPkt, sendDwellPkt, ha, List.nil_append, List.cons_append, List.mem_cons,
      List.not_mem_nil, or_false] at hmem
    rcases hmem with rfl | rfl
    · trivial
    · exact last_indexed hp hr
  · refine (while_invariant (I := fun r => InLoop svc t p r ∧ ∀ a ∈ r.actions, Indexed a)
      ?_ ⟨.enter, by simp [decrement, ha]⟩ hw).1.2
    rintro r ⟨hr, hall⟩ hdue
    refine ⟨.turn hr hdue, ?_⟩
    have hcur := inLoop_current hp.addrCount hc hr
    rw [dwellStep_actions]
    intro a hmem
    rcases List.mem_append.mp hmem with hmem | hmem
    · exact hall a hmem
    · rcases List.mem_cons.mp hmem with rfl | hmem
      · exact hcur.trans_le hp.addrCount
      · split_ifs at hmem
        · rw [List.mem_singleton.mp hmem]
          trivial
        · cases hmem

theorem inTable_step {s s' : State cfg} {l : Label cfg} (st : AnyStep s l s') (t : TblIndex cfg)
    (hx : InTable (stream s t).control) : InTable (stream s' t).control := by
  obtain ⟨fuel, he⟩ := st
  rcases streamStep_control (exec_stream he t) with h | ⟨_, -, h⟩ | ⟨_, -, h⟩ |
    ⟨e, new, load, -, h⟩ | ⟨e, new, load, -, h⟩ | ⟨_, h⟩ | ⟨tbl, -, h⟩ | ⟨fuel, p, -, hpass, h⟩ <;>
    rw [h]
  · exact hx
  · exact ⟨hx.addrCount, cfg.size_pos, hx.rate⟩
  · exact ⟨hx.addrCount, cfg.size_pos, hx.rate⟩
  · exact inTable_update hx.currentEntry
  · exact ⟨hx.addrCount, hx.currentEntry, hx.rate⟩
  · exact ⟨hx.addrCount, hx.currentEntry, hx.rate⟩
  · exact inTable_adopt _ tbl hx.currentEntry
  · exact inTable_pass hx hpass

theorem inTable_started {r : Resolver} {calls : InitCalls cfg} {s : State cfg}
    (h : Started r calls s) (t : TblIndex cfg) : InTable (s.dwellTables t) := by
  rw [started_control h t]
  split_ifs
  · exact inTable_adopt r _ cfg.size_pos
  · exact inTable_update cfg.size_pos

/-- All that a wakeup from `s` does with an index into `Entry`, also one that never ends. -/
structure EntriesIndexed (s : State cfg) : Prop where
  tables : ∀ t, InTable (s.dwellTables t)
  wakeup : ∀ svc fuel w, dwellLoop svc fuel s = some w → ∀ a ∈ w.actions, Indexed a
  full : ∀ t, let c := s.dwellTables t
    Active c → c.addrCount ≤ c.currentEntry →
      0 ≤ (c.addrCount : ℤ) - 1 ∧ (c.addrCount : ℤ) - 1 < cfg.dwellTableSize
  loop : ∀ svc t q, let c := s.dwellTables t
    c.currentEntry < c.addrCount → InLoop svc t (.start c (s.dwellPkt t)) q →
      q.control.currentEntry < c.addrCount

theorem entriesIndexed {s : State cfg} (h : ∀ t, InTable (s.dwellTables t)) :
    EntriesIndexed s := by
  refine ⟨h, ?_, ?_, ?_⟩
  · intro svc fuel w hw a ha
    cases ht : actionTable a with
    | none => cases a <;> trivial
    | some t =>
      obtain ⟨p, hp, -, -, hacts⟩ := dwellLoop_stream hw t
      have hmem : a ∈ actionsOf t w.actions := by
        simp [actionsOf, ha, ht]
      exact pass_indexed (h t) rfl hp a (hacts ▸ hmem)
  · exact fun t ha _ => last_indexed (h t) ha.2
  · exact fun svc t q hc hq => inLoop_current (h t).addrCount hc hq

/-- In every state that can be reached, whatever Table Services, the symbol table and
memory answered on the way. -/
theorem entries_indexed {r : Resolver} {calls : InitCalls cfg} {s₀ s : State cfg}
    {tr : List (State cfg × Label cfg)} (h₀ : Started r calls s₀) (run : Run AnyStep s₀ tr s) :
    EveryState EntriesIndexed tr s := by
  have hrun : EveryState (fun s => ∀ t, InTable (s.dwellTables t)) tr s := by
    apply run.invariant
    · exact fun _ _ _ hs st t => inTable_step st t (hs t)
    · exact inTable_started h₀
  exact hrun.imp fun _ => entriesIndexed

namespace Shortened

def config : Config := threeEntries

def calls : InitCalls config :=
  recoverAll (loadTable config 1 [loadEntry config 4 1 16, loadEntry config 4 1 20])

/-- After the first entry was sampled, it is nulled by a Jam that Table Services refuses and
by one that it accepts. -/
def inputs : List (Services config × Input config) :=
  [(smallServices config .success, wakeupMsg config),
    (smallServices config (.error 1), jamMsg config 1 1 0 0 0),
    (smallServices config .success, jamMsg config 1 2 0 0 0),
    (smallServices config .success, wakeupMsg config)]

end Shortened

theorem entries_indexed_shortened :
    ∃ s₀ tr s, Started flatMemory.resolver Shortened.calls s₀ ∧ Run AnyStep s₀ tr s ∧
      tr.map (fun q => Label.call q.2) = Shortened.inputs ∧ EveryState EntriesIndexed tr s := by
  obtain ⟨s₀, tr, s, h₀, run, hk, -⟩ := flight_run flatMemory.resolver Shortened.calls 10
    (blankState _) Shortened.inputs (fun _ _ _ => true) (by decide +kernel)
  have hany := run.imp fun _ _ _ => Step.any
  exact ⟨s₀, tr, s, h₀, hany, hk, entries_indexed h₀ hany⟩

end EntryIndices
