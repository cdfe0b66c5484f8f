import MemoryDwell.ActiveEntries

/-! # Dwell data stays inside the packet

The write position counts the lengths as they were when the entries were sampled, the
size in the packet the lengths as they are. Both stay inside `Payload.Data` as long as
no entry longer than four bytes becomes active. -/
namespace PacketBounds

open DwellData DwellUtils DwellTbl DwellPkts DwellCmds DwellApp DwellRuns DwellStreams
open StreamInit DwellTraces ActiveEntries FueledLoop TransitionRuns

variable {cfg : Config}

/-- Every copy ends inside the data, no write position wraps, and no packet announces
more than the data or is longer than a whole packet. -/
def Fits : Action cfg → Prop
  | .sample _ _ offset numBytes _ => offset + numBytes ≤ dataBytes cfg ∧ offset + numBytes < 65536
  | .sendDwell _ pkt => pkt.byteCount ≤ dataBytes cfg ∧ pkt.size ≤ dwellPktSizeof cfg
  | _ => True

instance : (a : Action cfg) → Decidable (Fits a)
  | .sample _ _ _ _ _ | .sendDwell _ _ => inferInstanceAs (Decidable (_ ∧ _))
  | .restart _ _ | .sendHk _ | .install _ _ _ => inferInstanceAs (Decidable True)

def Short (e : DwellControlEntry) : Prop := e.length.toNat ≤ 4

/-- The position is at most four bytes for each entry sampled so far. -/
structure Bounded (c : DwellPacketControl cfg) : Prop where
  addrCount : c.addrCount ≤ cfg.dwellTableSize
  short : AllActive Short c
  dataSize : c.dataSize ≤ dataBytes cfg
  pktOffset : c.pktOffset ≤ 4 * c.currentEntry

/-- The states of the sampling loop of a table, also of one that is never left. -/
inductive InLoop (svc : Services cfg) (t : TblIndex cfg) (p : Pass cfg) : Pass cfg → Prop where
  | enter : InLoop svc t p (decrement p)
  | turn {q : Pass cfg} : InLoop svc t p q → dwellDue q = true →
      InLoop svc t p (dwellStep svc t p.control.addrCount q)

theorem while_inLoop {svc : Services cfg} {t : TblIndex cfg} {p q : Pass cfg} {fuel : ℕ}
    (h : whileLoop dwellDue (dwellStep svc t p.control.addrCount) fuel (decrement p) = some q) :
    InLoop svc t p q :=
  (while_invariant (I := InLoop svc t p) (fun _ hr hdue => .turn hr hdue) .enter h).1

theorem inLoop_contents {svc : Services cfg} {t : TblIndex cfg} {p q : Pass cfg}
    (h : InLoop svc t p q) : SameContents p.control q.control := by
  induction h with
  | enter => exact ⟨rfl, rfl, rfl, rfl, rfl, rfl⟩
  | turn _ _ ih =>
    rw [dwellStep_control]
    exact ih.trans (advance_contents _ _)

theorem fillDwellPkt_fits (t : TblIndex cfg) {c : DwellPacketControl cfg} (pkt : DwellPkt cfg)
    (h : c.dataSize ≤ dataBytes cfg) : Fits (.sendDwell t (fillDwellPkt t c pkt)) := by
  refine ⟨h, (Nat.mod_le _ _).trans ?_⟩
  simp only [dwellPktSizeof, dataBytes] at h ⊢
  omega

/-- What each turn keeps: the position behind the entries sampled so far, and everything
done in bounds. -/
structure Safe (p q : Pass cfg) : Prop where
  contents : SameContents p.control q.control
  current : q.control.currentEntry < p.control.addrCount
  offset : q.control.pktOffset ≤ 4 * q.control.currentEntry
  fits : ∀ a ∈ q.actions, Fits a

theorem safe_turn {svc : Services cfg} {t : TblIndex cfg} {p q : Pass cfg}
    (hN : cfg.dwellTableSize ≤ 255) (hb : Bounded p.control) (h : Safe p q) :
    Safe p (dwellStep svc t p.control.addrCount q) := by
  have hn := hb.addrCount
  have hc := h.current
  have ho := h.offset
  have hshort : (q.control.entry q.control.currentEntry).length.toNat ≤ 4 := by
    rw [h.contents.entry]
    exact hb.short _ hc
  have hmod := Nat.mod_le (q.control.entry q.control.currentEntry).length.toNat 256
  refine ⟨?_, ?_, ?_, ?_⟩
  · rw [dwellStep_control]
    exact h.contents.trans (advance_contents _ _)
  · rw [dwellStep_control]
    exact advance_currentEntry_lt (by omega) hc
  · rw [dwellStep_control, advance]
    split_ifs with hl
    · exact Nat.zero_le _
    · simp only
      rw [Nat.mod_eq_of_lt (show q.control.currentEntry + 1 < 65536 by omega)]
      exact (Nat.mod_le _ _).trans (by omega)
  · have hsample : Fits (.sample t q.control.currentEntry q.control.pktOffset
        ((q.control.entry q.control.currentEntry).length.toNat % 256)
        (fetched svc t q.control.currentEntry q)) := by
      simp only [Fits, dataBytes]
      omega
    have hsize : q.control.dataSize ≤ dataBytes cfg := by
      rw [h.contents.dataSize]
      exact hb.dataSize
    rw [dwellStep_actions]
    intro a ha
    rcases List.mem_append.mp ha with ha | ha
    · exact h.fits a ha
    · rcases List.mem_cons.mp ha with rfl | ha
      · exact hsample
      · split_ifs at ha with hl
        · rw [List.mem_singleton.mp ha, dwellStep_pkt, if_pos hl]
          exact fillDwellPkt_fits t _ hsize
        · cases ha

theorem inLoop_safe {svc : Services cfg} {t : TblIndex cfg} {p q : Pass cfg}
    (hN : cfg.dwellTableSize ≤ 255) (hb : Bounded p.control) (ha : p.actions = [])
    (hc : p.control.currentEntry < p.control.addrCount) (h : InLoop svc t p q) : Safe p q := by
  induction h with
  | enter => exact ⟨⟨rfl, rfl, rfl, rfl, rfl, rfl⟩, hc, hb.pktOffset, by simp [decrement, ha]⟩
  | turn _ _ ih => exact safe_turn hN hb ih

theorem pass_bounded {svc : Services cfg} {fuel : ℕ} {t : TblIndex cfg} {p q : Pass cfg}
    (hN : cfg.dwellTableSize ≤ 255) (hb : Bounded p.control) (ha : p.actions = [])
    (h : dwellTable svc fuel t p = some q) :
    Bounded q.control ∧ ∀ a ∈ q.actions, Fits a := by
  have hcont := dwellTable_contents h
  have keep : q.control.pktOffset ≤ 4 * q.control.currentEntry → Bounded q.control := by
    intro ho
    refine ⟨?_, hb.short.of_contents hcont, ?_, ho⟩
    · rw [hcont.addrCount]
      exact hb.addrCount
    · rw [hcont.dataSize]
      exact hb.dataSize
  rcases dwellTable_cases h with ⟨-, rfl⟩ | ⟨-, -, -, rfl⟩ | ⟨-, -, hc, hw⟩
  · exact ⟨hb, by simp [ha]⟩
  · refine ⟨keep (Nat.zero_le _), ?_⟩
    intro a hmem
    simp only [sendFullPkt, sendDwellPkt, ha, List.nil_append, List.cons_append, List.mem_cons,
      List.not_mem_nil, or_false] at hmem
    rcases hmem with rfl | rfl
    · exact fillDwellPkt_fits t _ hb.dataSize
    · trivial
  · have hs := inLoop_safe hN hb ha hc (while_inLoop hw)
    exact ⟨keep hs.offset, hs.fits⟩

/-- An accepted Jam brings no entry longer than four bytes into the active part. -/
def ExposesShort (l : Label cfg) (t : TblIndex cfg) (x : Stream cfg) : Prop :=
  match opOf l t with
  | .jam e new _ true => ∀ i < activeLength cfg (lengths (written x.control e new)),
      x.control.addrCount ≤ i → i ≠ e → Short (x.control.entry i)
  | _ => True

instance (e : DwellControlEntry) : Decidable (Short e) := inferInstanceAs (Decidable (_ ≤ _))

instance (l : Label cfg) (t : TblIndex cfg) (x : Stream cfg) : Decidable (ExposesShort l t x) := by
  unfold ExposesShort
  induction opOf l t using StreamOp.byAnswer <;> infer_instance

theorem short_of_valid {l : UInt16} (h : l = 0 ∨ l = 1 ∨ l = 2 ∨ l = 4) : l.toNat ≤ 4 := by
  rcases h with rfl | rfl | rfl | rfl <;> decide

theorem jamWrite_short {svc : Services cfg} {p : CmdJamPayload cfg} {new : DwellControlEntry}
    {load : TableLoadEntry cfg} (h : jamWrite svc p = some (new, load)) : Short new := by
  rcases jamWrite_cases h with ⟨rfl, -⟩ | ⟨a, -, hc, rfl, -⟩
  · exact Nat.zero_le _
  · exact short_of_valid (jamChecks_length hc)

theorem keepsShort {l : Label cfg} {t : TblIndex cfg} {x : Stream cfg}
    (ha : ∃ r, LoadAccepted r l t x) (hp : ExposesShort l t x)
    (hs : OpSound l.services t (opOf l t)) (hx : AllActive Short x.control) :
    KeepsActive Short l t x := by
  simp only [LoadAccepted] at ha
  simp only [ExposesShort] at hp
  rw [KeepsActive]
  cases hop : opOf l t with
  | jam e new load granted =>
    rw [hop] at hs hp
    obtain ⟨-, -, p, hw⟩ := hs
    cases granted with
    | true =>
      intro i hi
      by_cases hie : i = e
      · subst hie
        simpa [written] using jamWrite_short hw
      · simp only [written, Function.update_of_ne hie]
        by_cases hc : i < x.control.addrCount
        · exact hx i hc
        · exact hp i hi (Nat.le_of_not_lt hc) hie
    | false => exact fun _ => jamWrite_short hw
  | load tbl copied =>
    rw [hop] at ha
    obtain ⟨r, ha⟩ := ha
    cases copied with
    | true =>
      intro i hi
      exact short_of_valid (validTableEntry_length (((accepted_iff r tbl).mp ha).2.2 i hi))
    | false => trivial
  | _ => trivial

theorem bounded_update {c : DwellPacketControl cfg}
    (hs : AllActive Short (updateDwellControlInfo c)) (ho : c.pktOffset ≤ 4 * c.currentEntry) :
    Bounded (updateDwellControlInfo c) := by
  have hk := activeLength_le cfg (lengths c)
  have hsum : lengthSum (lengths c) (activeLength cfg (lengths c)) ≤
      activeLength cfg (lengths c) * 4 :=
    PrefixSums.sum_range_le ((allActive_update c).mp hs)
  refine ⟨?_, hs, ?_, ho⟩
  · rw [updateDwellControlInfo_eq]
    exact hk
  · rw [updateDwellControlInfo_eq]
    apply (Nat.mod_le _ _).trans
    rw [dataBytes]
    omega

theorem bounded_adopt {r : Resolver} {tbl : DwellTableLoad cfg} {c : DwellPacketControl cfg}
    (hs : AllActive Short (adopt r tbl c)) (ho : c.pktOffset ≤ 4 * c.currentEntry) :
    Bounded (adopt r tbl c) := by
  have hc := adopt_contents r tbl c
  have hb := bounded_update (hs.of_contents hc.symm) ho
  refine ⟨?_, hs, ?_, ?_⟩
  · rw [hc.addrCount]
    exact hb.addrCount
  · rw [hc.dataSize]
    exact hb.dataSize
  · rw [adopt]
    split_ifs
    · exact Nat.zero_le _
    · exact ho

theorem bounded_move {l : Label cfg} {t : TblIndex cfg} {x y : Stream cfg}
    (hN : cfg.dwellTableSize ≤ 255) (ha : ∃ r, LoadAccepted r l t x) (hp : ExposesShort l t x)
    (hx : Bounded x.control) (m : StreamMove l t x y) : Bounded y.control := by
  have hy := (allActive_move hx.short m).mpr (keepsShort ha hp m.sound hx.short)
  rcases m.control_cases with h | ⟨_, -, h⟩ | ⟨_, -, h⟩ | ⟨e, new, load, -, h⟩ |
    ⟨e, new, load, -, h⟩ | ⟨_, h⟩ | ⟨tbl, -, h⟩ | ⟨fuel, p, -, hpass, h⟩ <;> rw [h] at hy ⊢
  · exact hx
  · exact ⟨hx.addrCount, hx.short, hx.dataSize, Nat.zero_le _⟩
  · exact ⟨hx.addrCount, hx.short, hx.dataSize, Nat.zero_le _⟩
  · exact bounded_update hy hx.pktOffset
  · exact ⟨hx.addrCount, hy, hx.dataSize, hx.pktOffset⟩
  · exact ⟨hx.addrCount, hx.short, hx.dataSize, hx.pktOffset⟩
  · exact bounded_adopt hy hx.pktOffset
  · exact (pass_bounded hN hx rfl hpass).1

theorem started_bounded {r : Resolver} {calls : InitCalls cfg} {s : State cfg}
    (h : Started r calls s) (t : TblIndex cfg) : Bounded (s.dwellTables t) := by
  rw [started_control h t]
  split_ifs with hr
  · refine bounded_adopt ((allActive_adopt r _ _).mpr fun i hi => ?_) (Nat.zero_le _)
    exact short_of_valid (validTableEntry_length (((accepted_iff r _).mp hr.2.2).2.2 i hi))
  · refine bounded_update ((allActive_update _).mpr fun i hi => ?_) (Nat.zero_le _)
    exact Nat.zero_le _

/-- Every copy and every packet of a wakeup from `s` fits, and so does what a sampling
loop does that the wakeup never leaves. -/
def WakeupsFit (s : State cfg) : Prop :=
  (∀ svc fuel w, dwellLoop svc fuel s = some w → ∀ a ∈ w.actions, Fits a) ∧
  ∀ svc t q, (s.dwellTables t).currentEntry < (s.dwellTables t).addrCount →
    InLoop svc t (.start (s.dwellTables t) (s.dwellPkt t)) q → ∀ a ∈ q.actions, Fits a

theorem wakeups_fit {s : State cfg} (hN : cfg.dwellTableSize ≤ 255)
    (h : ∀ t, Bounded (s.dwellTables t)) : WakeupsFit s := by
  constructor
  · intro svc fuel w hw a ha
    cases ht : actionTable a with
    | none => cases a <;> trivial
    | some t =>
      obtain ⟨p, hp, -, -, hacts⟩ := dwellLoop_stream hw t
      have hmem : a ∈ actionsOf t w.actions := by
        simp [actionsOf, ha, ht]
      exact (pass_bounded hN (h t) rfl hp).2 a (hacts ▸ hmem)
  · intro svc t q hc hq
    exact (inLoop_safe hN (h t) rfl hc hq).fits

/-- Dwell data stays inside the packets in every run whose Jams make only entries of at
most four bytes active. -/
theorem packets_bounded (hN : cfg.dwellTableSize ≤ 255) {r : Resolver} {calls : InitCalls cfg}
    {s₀ s : State cfg} {tr : List (State cfg × Label cfg)} (h₀ : Started r calls s₀)
    (run : Run AnyStep s₀ tr s)
    (loads : EveryStep (EachStream fun l t x => ∃ r, LoadAccepted r l t x) tr)
    (short : EveryStep (EachStream ExposesShort) tr) : EveryState WakeupsFit tr s := by
  have hb := run_streams (J := fun x => Bounded x.control)
    (P := fun l t x => (∃ r, LoadAccepted r l t x) ∧ ExposesShort l t x)
    (fun _ _ _ _ hp hx m => bounded_move hN hp.1 hp.2 hx m) run (started_bounded h₀)
    (fun q hq t => ⟨loads q hq t, short q hq t⟩)
  exact hb.imp fun s hs => wakeups_fit hN hs

namespace Counterexample

def config : Config := threeEntries

def tbl : DwellTableLoad config :=
  loadTable config 0 [loadEntry config 0 0 0, loadEntry config 200 0 0, loadEntry config 4 1 16]

def inputs : List (Services config × Input config) :=
  [(smallServices config .success, jamMsg config 1 1 1 0 16),
    (smallServices config .success, startMsg config 1)]

end Counterexample

/-- The third entry is copied to a place two hundred bytes behind the start of a packet
that holds twelve. -/
theorem sample_leaves_packet :
    Accepted flatMemory.resolver Counterexample.tbl ∧
    ∃ s₀ tr s, Started flatMemory.resolver (recoverAll Counterexample.tbl) s₀ ∧
      Run Step s₀ tr s ∧ tr.map (fun q => Label.call q.2) = Counterexample.inputs ∧
      ∃ w, dwellLoop (smallServices _ .success) 10 s = some w ∧
        ∃ a ∈ w.actions, ¬ ActionDefined a ∧ ¬ Fits a := by
  obtain ⟨s₀, tr, s, h₀, run, hk, hc⟩ := flight_run flatMemory.resolver
    (recoverAll Counterexample.tbl) 10 (blankState _) Counterexample.inputs
    (fun _ _ s => (dwellLoop (smallServices _ .success) 10 s).any fun w =>
      ∃ a ∈ w.actions, ¬ ActionDefined a ∧ ¬ Fits a) (by decide +kernel)
  obtain ⟨w, hw, ha⟩ := (Option.any_eq_true _ _).mp hc
  exact ⟨by decide +kernel, s₀, tr, s, h₀, run, hk, w, hw, of_decide_eq_true ha⟩

theorem packets_bounded_run :
    ∃ s₀ tr s, Started flatMemory.resolver (recoverAll Counterexample.tbl) s₀ ∧
      Run Step s₀ tr s ∧
      tr.map (fun q => Label.call q.2) =
        [(smallServices Counterexample.config .success,
            jamMsg Counterexample.config 1 2 0 0 0),
          (smallServices Counterexample.config .success,
            jamMsg Counterexample.config 1 1 2 1 16),
          (smallServices Counterexample.config .success, startMsg Counterexample.config 1),
          (smallServices Counterexample.config .success, wakeupMsg Counterexample.config)] ∧
      EveryState WakeupsFit tr s := by
  obtain ⟨s₀, tr, s, h₀, run, hk, hc⟩ := flight_run flatMemory.resolver
    (recoverAll Counterexample.tbl) 10 (blankState _)
    [(smallServices _ .success, jamMsg _ 1 2 0 0 0),
      (smallServices _ .success, jamMsg _ 1 1 2 1 16), (smallServices _ .success, startMsg _ 1),
      (smallServices _ .success, wakeupMsg _)]
    (fun _ tr _ => EveryStep (EachStream (LoadAccepted flatMemory.resolver)) tr ∧
      EveryStep (EachStream ExposesShort) tr) (by decide +kernel)
  obtain ⟨loads, short⟩ := of_decide_eq_true hc
  exact ⟨s₀, tr, s, h₀, run, hk,
    packets_bounded (by decide) h₀ (run_any run) (fun q hq t => ⟨_, loads q hq t⟩) short⟩

end PacketBounds
