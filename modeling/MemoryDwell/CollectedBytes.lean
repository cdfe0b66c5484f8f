import MemoryDwell.DwellTurns
import MemoryDwell.PacketBounds

/-! # The bytes of a packet

A packet announces the lengths of the active entries as they are when it is sent. What has
been collected by then are the lengths as they were when the entries were sampled. A Jam
on an active stream may come between the two. -/
namespace CollectedBytes

open DwellData DwellUtils DwellTbl DwellPkts DwellApp DwellRuns DwellStreams StreamInit
open DwellTraces PacketBounds FueledLoop TransitionRuns

variable {cfg : Config}

def Active (c : DwellPacketControl cfg) : Prop := c.enabled = dwellEnabled ∧ 0 < c.rate

instance (c : DwellPacketControl cfg) : Decidable (Active c) :=
  inferInstanceAs (Decidable (_ ∧ _))

/-- The pass over `p` calls MD_SendDwellPkt: on a packet that is full already, or after the
last active entry was sampled. -/
inductive Sending (svc : Services cfg) (t : TblIndex cfg) (p : Pass cfg) :
    Bool → Pass cfg → Prop where
  | full : Active p.control → p.control.addrCount ≤ p.control.currentEntry →
      Sending svc t p false p
  | sampled {q : Pass cfg} : Active p.control → p.control.currentEntry < p.control.addrCount →
      InLoop svc t p q → dwellDue q = true → q.control.currentEntry + 1 = p.control.addrCount →
      Sending svc t p true (getDwellData svc t q.control.currentEntry q).2

theorem sent_sending {svc : Services cfg} {t : TblIndex cfg} {c : DwellPacketControl cfg}
    {pkt : DwellPkt cfg} {fuel : ℕ} {q : Pass cfg}
    (h : dwellTable svc fuel t (.start c pkt) = some q) {u : TblIndex cfg} {sent : DwellPkt cfg}
    (hs : .sendDwell u sent ∈ q.actions) :
    ∃ last r, Sending svc t (.start c pkt) last r ∧ sent = fillDwellPkt t r.control r.pkt := by
  rcases dwellTable_cases h with ⟨-, rfl⟩ | ⟨he, hr, hf, rfl⟩ | ⟨he, hr, hc, hw⟩
  · simp at hs
  · simp only [sendFullPkt, sendDwellPkt, start_actions, List.nil_append, List.cons_append,
      List.mem_cons, List.not_mem_nil, or_false, Action.sendDwell.injEq, reduceCtorEq] at hs
    exact ⟨false, _, .full ⟨he, hr⟩ hf, hs.2⟩
  · have hloop := (while_invariant (I := fun p => InLoop svc t (.start c pkt) p ∧
      ∀ u sent, .sendDwell u sent ∈ p.actions → ∃ last r, Sending svc t (.start c pkt) last r ∧
        sent = fillDwellPkt t r.control r.pkt) ?_ ⟨.enter, by simp [decrement]⟩ hw).1
    · exact hloop.2 u sent hs
    · rintro p ⟨hp, hall⟩ hdue
      refine ⟨.turn hp hdue, fun u sent hmem => ?_⟩
      rw [dwellStep_actions] at hmem
      rcases List.mem_append.mp hmem with hmem | hmem
      · exact hall u sent hmem
      · split_ifs at hmem with hl
        · simp only [List.mem_cons, List.not_mem_nil, or_false, reduceCtorEq, false_or,
            Action.sendDwell.injEq] at hmem
          refine ⟨true, _, .sampled ⟨he, hr⟩ hc hp hdue hl, hmem.2.trans ?_⟩
          rw [dwellStep_pkt, if_pos hl]
          rfl
        · simp at hmem

theorem sending_contents {svc : Services cfg} {t : TblIndex cfg} {p q : Pass cfg} {last : Bool}
    (h : Sending svc t p last q) : SameContents p.control q.control := by
  cases h with
  | full => exact .refl _
  | sampled _ _ hq _ _ => exact (inLoop_contents hq).trans ⟨rfl, rfl, rfl, rfl, rfl, rfl⟩

theorem wakeup_sending {s : State cfg} {svc : Services cfg} {fuel : ℕ} {w : Wakeup cfg}
    (hw : dwellLoop svc fuel s = some w) {t : TblIndex cfg} {pkt : DwellPkt cfg}
    (hs : .sendDwell t pkt ∈ w.actions) :
    ∃ last r, Sending svc t (.start (s.dwellTables t) (s.dwellPkt t)) last r ∧
      pkt = fillDwellPkt t r.control r.pkt := by
  obtain ⟨p, hp, -, -, hacts⟩ := dwellLoop_stream hw t
  have hmem : .sendDwell t pkt ∈ p.actions := by
    rw [← hacts]
    exact List.mem_filter.mpr ⟨hs, decide_eq_true rfl⟩
  exact sent_sending hp hmem

/-- A packet announces at most what was collected, and all of it if its last entry was
just sampled. -/
def PacketsAnnounce (s : State cfg) : Prop :=
  ∀ svc t last r, Sending svc t (.start (s.dwellTables t) (s.dwellPkt t)) last r →
    let byteCount := (fillDwellPkt t r.control r.pkt).byteCount
    byteCount ≤ r.control.pktOffset ∧ (last = true → byteCount = r.control.pktOffset)

theorem PacketsAnnounce.wakeup {s : State cfg} (h : PacketsAnnounce s) {svc : Services cfg}
    {fuel : ℕ} {w : Wakeup cfg} (hw : dwellLoop svc fuel s = some w) {t : TblIndex cfg}
    {pkt : DwellPkt cfg} (hs : .sendDwell t pkt ∈ w.actions) :
    ∃ last r, Sending svc t (.start (s.dwellTables t) (s.dwellPkt t)) last r ∧
      pkt = fillDwellPkt t r.control r.pkt ∧ pkt.byteCount ≤ r.control.pktOffset ∧
      (last = true → pkt.byteCount = r.control.pktOffset) := by
  obtain ⟨last, r, hr, rfl⟩ := wakeup_sending hw hs
  obtain ⟨hle, heq⟩ := h svc t last r hr
  exact ⟨last, r, hr, rfl, hle, heq⟩

/-- The position stands behind the entries before the current one, by the lengths they
have now. A packet that is full already holds at least what it announces. -/
structure Collected (c : DwellPacketControl cfg) : Prop where
  nominal : c.currentEntry < c.addrCount →
    c.pktOffset = lengthSum (lengths c) c.currentEntry % 65536
  full : c.addrCount ≤ c.currentEntry → c.dataSize ≤ c.pktOffset

structure Books (c : DwellPacketControl cfg) : Prop where
  bound : c.addrCount ≤ cfg.dwellTableSize
  short : ∀ i < cfg.dwellTableSize, Short (c.entry i)
  dataSize : c.dataSize = lengthSum (lengths c) c.addrCount % 65536
  collected : Active c → Collected c

theorem Books.reset {c : DwellPacketControl cfg} (bound : c.addrCount ≤ cfg.dwellTableSize)
    (short : ∀ i < cfg.dwellTableSize, Short (c.entry i))
    (dataSize : c.dataSize = lengthSum (lengths c) c.addrCount % 65536)
    (hc : c.currentEntry = 0) (ho : c.pktOffset = 0) : Books c := by
  refine ⟨bound, short, dataSize, fun _ => ⟨fun _ => ?_, fun hf => ?_⟩⟩
  · rw [ho, hc]
    rfl
  · have h0 : c.addrCount = 0 := by omega
    rw [dataSize, h0, ho]
    exact Nat.zero_le _

theorem Books.of_contents {c d : DwellPacketControl cfg} (h : Books c) (hcd : SameContents c d)
    (hcol : Active d → Collected d) : Books d := by
  have hl : lengths d = lengths c := congrArg (fun e i => DwellControlEntry.length (e i)) hcd.entry
  refine ⟨hcd.addrCount.trans_le h.bound, ?_, ?_, hcol⟩
  · rw [hcd.entry]
    exact h.short
  · rw [hcd.dataSize, hcd.addrCount, hl]
    exact h.dataSize

structure Collecting (c : DwellPacketControl cfg) (q : Pass cfg) : Prop where
  contents : SameContents c q.control
  current : q.control.currentEntry < c.addrCount
  offset : q.control.pktOffset = lengthSum (lengths c) q.control.currentEntry % 65536

section Pass

variable {svc : Services cfg} {t : TblIndex cfg} {p q : Pass cfg}

theorem Collecting.next (hb : Books p.control) (h : Collecting p.control q) :
    (q.control.pktOffset + (q.control.entry q.control.currentEntry).length.toNat % 256) % 65536 =
      lengthSum (lengths p.control) (q.control.currentEntry + 1) % 65536 := by
  have hshort : (q.control.entry q.control.currentEntry).length.toNat ≤ 4 := by
    rw [h.contents.entry]
    exact hb.short _ (h.current.trans_le hb.bound)
  rw [Nat.mod_eq_of_lt (show _ < 256 by omega), h.offset, DwellTurns.lengthSum_succ,
    Nat.mod_add_mod, h.contents.entry]

theorem collecting_turn (hb : Books p.control) (h : Collecting p.control q) :
    Collecting p.control (dwellStep svc t p.control.addrCount q) := by
  have hn := hb.bound.trans cfg.size_le
  have hcur := advance_currentEntry hn h.current
  refine ⟨?_, ?_, ?_⟩
  · rw [dwellStep_control]
    exact h.contents.trans (advance_contents _ _)
  · rw [dwellStep_control]
    exact advance_currentEntry_lt hn h.current
  · rw [dwellStep_control, hcur, advance]
    split_ifs with hl
    · rfl
    · exact h.next hb

theorem inLoop_collecting (hb : Books p.control) (ha : Active p.control)
    (hc : p.control.currentEntry < p.control.addrCount) (h : InLoop svc t p q) :
    Collecting p.control q := by
  induction h with
  | enter => exact ⟨⟨rfl, rfl, rfl, rfl, rfl, rfl⟩, hc, (hb.collected ha).nominal hc⟩
  | turn _ _ ih => exact collecting_turn hb ih

theorem books_pass (hb : Books p.control) {fuel : ℕ} (h : dwellTable svc fuel t p = some q) :
    Books q.control := by
  have hcont := dwellTable_contents h
  rcases dwellTable_cases h with ⟨-, rfl⟩ | ⟨-, -, -, rfl⟩ | ⟨he, hr, hc, hw⟩
  · exact hb
  · exact .reset hb.bound hb.short hb.dataSize rfl rfl
  · have hq := inLoop_collecting hb ⟨he, hr⟩ hc (while_inLoop hw)
    refine hb.of_contents hcont fun _ => ⟨fun _ => ?_, fun hf => ?_⟩
    · have hl : lengths q.control = lengths p.control :=
        congrArg (fun e i => DwellControlEntry.length (e i)) hcont.entry
      rw [hl]
      exact hq.offset
    · rw [hcont.addrCount] at hf
      exact absurd hq.current (Nat.not_lt.mpr hf)

theorem sending_announces (hb : Books p.control) {last : Bool} {r : Pass cfg}
    (h : Sending svc t p last r) :
    r.control.dataSize ≤ r.control.pktOffset ∧
      (last = true → r.control.dataSize = r.control.pktOffset) := by
  cases h with
  | full ha hf => exact ⟨(hb.collected ha).full hf, fun h => absurd h (by decide)⟩
  | sampled ha hc hq hdue hl =>
    next q =>
      have hcol := inLoop_collecting hb ha hc hq
      have heq : q.control.dataSize = (q.control.pktOffset +
          (q.control.entry q.control.currentEntry).length.toNat % 256) % 65536 := by
        rw [hcol.next hb, hl, hcol.contents.dataSize]
        exact hb.dataSize
      exact ⟨heq.le, fun _ => heq⟩

end Pass

theorem packets_announce_of_books {s : State cfg} (h : ∀ t, Books (s.dwellTables t)) :
    PacketsAnnounce s := fun _ t _ _ hs => sending_announces (h t) hs

/-- All entries of a load pass MD_ValidTableEntry, those behind the terminator too. -/
def EntriesValid (r : Resolver) (tbl : DwellTableLoad cfg) : Prop :=
  ∀ i < cfg.dwellTableSize, validTableEntry r i (tbl.entry i) = .success

instance (r : Resolver) (tbl : DwellTableLoad cfg) : Decidable (EntriesValid r tbl) :=
  inferInstanceAs (Decidable (∀ i < cfg.dwellTableSize, _))

def LoadValid (r : Resolver) (l : Label cfg) (t : TblIndex cfg) (_ : Stream cfg) : Prop :=
  match opOf l t with
  | .load tbl _ => Accepted r tbl ∧ EntriesValid r tbl
  | _ => True

instance (r : Resolver) (l : Label cfg) (t : TblIndex cfg) (x : Stream cfg) :
    Decidable (LoadValid r l t x) := by
  unfold LoadValid
  induction opOf l t using StreamOp.byAnswer <;> infer_instance

/-- The Jam of `new` onto entry `e` agrees with what was collected: if it leaves an active
stream, the position is behind the entries before the current one by their new lengths, or
the packet, now full, holds all it will announce. -/
def KeepsCount (c : DwellPacketControl cfg) (e : ℕ) (new : DwellControlEntry) : Prop :=
  let length := Function.update (lengths c) e new.length
  let n := activeLength cfg length
  c.enabled = dwellEnabled → 0 < delaySum (Function.update (delays c) e new.delay) n →
    (c.currentEntry < n → c.pktOffset = lengthSum length c.currentEntry % 65536) ∧
    (n ≤ c.currentEntry → lengthSum length n % 65536 ≤ c.pktOffset)

instance (c : DwellPacketControl cfg) (e : ℕ) (new : DwellControlEntry) :
    Decidable (KeepsCount c e new) :=
  inferInstanceAs (Decidable (_ → _ → _ ∧ _))

def JamKeepsCount (l : Label cfg) (t : TblIndex cfg) (x : Stream cfg) : Prop :=
  match opOf l t with
  | .jam e new _ true => KeepsCount x.control e new
  | _ => True

instance (l : Label cfg) (t : TblIndex cfg) (x : Stream cfg) :
    Decidable (JamKeepsCount l t x) := by
  unfold JamKeepsCount
  induction opOf l t using StreamOp.byAnswer <;> infer_instance

theorem keepsCount_iff (c : DwellPacketControl cfg) (e : ℕ) (new : DwellControlEntry) :
    KeepsCount c e new ↔
      (Active (updateDwellControlInfo (written c e new)) →
        Collected (updateDwellControlInfo (written c e new))) := by
  simp only [KeepsCount, ← lengths_written, ← delays_written]
  rw [updateDwellControlInfo_eq]
  constructor
  · rintro h ⟨he, hr⟩
    exact ⟨(h he hr).1, (h he hr).2⟩
  · intro h he hr
    exact ⟨(h ⟨he, hr⟩).nominal, (h ⟨he, hr⟩).full⟩

theorem short_written {c : DwellPacketControl cfg} (h : ∀ i < cfg.dwellTableSize, Short (c.entry i))
    (e : ℕ) {new : DwellControlEntry} (hnew : Short new) :
    ∀ i < cfg.dwellTableSize, Short ((written c e new).entry i) := by
  intro i hi
  by_cases hie : i = e
  · simpa [written, hie] using hnew
  · simpa [written, hie] using h i hi

theorem books_adopt {r r' : Resolver} {tbl : DwellTableLoad cfg} (ha : Accepted r tbl)
    (hv : EntriesValid r tbl) (c : DwellPacketControl cfg) : Books (adopt r' tbl c) := by
  have hshort : ∀ i < cfg.dwellTableSize,
      Short ((copiedUpTo r' tbl c cfg.dwellTableSize).entry i) := by
    intro i hi
    simp only [copiedUpTo, if_pos hi]
    exact short_of_valid (validTableEntry_length (hv i hi))
  have hk := activeLength_le cfg (lengths (copiedUpTo r' tbl c cfg.dwellTableSize))
  rw [adopt, updateDwellControlInfo_eq]
  rcases ha.enabled with h | h
  · rw [if_neg (by simp [h, dwellDisabled, dwellEnabled])]
    refine ⟨hk, hshort, rfl, fun hact => absurd hact.1 ?_⟩
    simp [copiedUpTo, h, dwellDisabled, dwellEnabled]
  · rw [if_pos h]
    exact .reset hk hshort rfl rfl rfl

theorem books_move {l : Label cfg} {t : TblIndex cfg} {x y : Stream cfg}
    (hg : Granted l.services t) (ha : ∃ r, LoadValid r l t x) (hp : JamKeepsCount l t x)
    (hx : Books x.control) (m : StreamMove l t x y) : Books y.control := by
  have hsound := m.sound
  simp only [LoadValid] at ha
  simp only [JamKeepsCount] at hp
  rcases m.control_cases with h | ⟨_, -, h⟩ | ⟨_, -, h⟩ | ⟨e, new, load, hop, h⟩ |
    ⟨e, new, load, hop, h⟩ | ⟨_, h⟩ | ⟨tbl, hop, h⟩ | ⟨fuel, p, -, hpass, h⟩ <;> rw [h]
  · exact hx
  · exact .reset hx.bound hx.short hx.dataSize rfl rfl
  · exact .reset hx.bound hx.short hx.dataSize rfl rfl
  · rw [hop] at hsound hp
    obtain ⟨-, -, p, hw⟩ := hsound
    have hcol := (keepsCount_iff x.control e new).mp hp
    rw [updateDwellControlInfo_eq] at hcol ⊢
    exact ⟨activeLength_le _ _, short_written hx.short e (jamWrite_short hw), rfl, hcol⟩
  · rw [hop] at hsound
    exact absurd (hsound.1.trans (decide_eq_true hg)) (by decide)
  · exact ⟨hx.bound, hx.short, hx.dataSize, fun ha =>
      ⟨(hx.collected ha).nominal, (hx.collected ha).full⟩⟩
  · rw [hop] at ha
    obtain ⟨r, ha, hv⟩ := ha
    exact books_adopt ha hv x.control
  · exact books_pass hx hpass

theorem books_started {r : Resolver} {calls : InitCalls cfg} {s : State cfg}
    (h : Started r calls s) (hv : ∀ t, Recovers r calls t → EntriesValid r (calls.recovered t))
    (t : TblIndex cfg) : Books (s.dwellTables t) := by
  rw [started_control h t]
  split_ifs with hr
  · exact books_adopt hr.2.2 (hv t hr) _
  · rw [updateDwellControlInfo_eq]
    exact .reset (activeLength_le _ _) (fun _ _ => Nat.zero_le _) rfl rfl rfl

/-- In a run on valid tables with Table Services willing, every packet announces what was
collected if no Jam on an active stream contradicts what was collected so far. -/
theorem packets_announce {r : Resolver} {calls : InitCalls cfg} {s₀ s : State cfg}
    {tr : List (State cfg × Label cfg)} (h₀ : Started r calls s₀)
    (recovered : ∀ t, Recovers r calls t → EntriesValid r (calls.recovered t))
    (run : Run AnyStep s₀ tr s)
    (granted : EveryStep (fun _ l => ∀ t, Granted l.services t) tr)
    (loads : EveryStep (EachStream fun l t x => ∃ r, LoadValid r l t x) tr)
    (jams : EveryStep (EachStream JamKeepsCount) tr) : EveryState PacketsAnnounce tr s := by
  have hb := run_streams (J := fun x => Books x.control)
    (P := fun l t x => Granted l.services t ∧ (∃ r, LoadValid r l t x) ∧ JamKeepsCount l t x)
    (fun _ _ _ _ hp hx m => books_move hp.1 hp.2.1 hp.2.2 hx m) run (books_started h₀ recovered)
    (fun q hq t => ⟨granted q hq t, loads q hq t, jams q hq t⟩)
  exact hb.imp fun s hs => packets_announce_of_books hs

namespace Counterexample

def config : Config := threeEntries

def calls : InitCalls config :=
  recoverAll (loadTable config 1 [loadEntry config 1 1 16, loadEntry config 1 1 20])

def inputs : List (Services config × Input config) :=
  [(smallServices config .success, wakeupMsg config),
    (smallServices config .success, jamMsg config 1 1 4 1 16)]

end Counterexample

/-- The next wakeup sends a packet that announces five bytes after two were written. -/
theorem jam_in_mid_packet :
    (∀ t, Recovers flatMemory.resolver Counterexample.calls t →
      EntriesValid flatMemory.resolver (Counterexample.calls.recovered t)) ∧
    ∃ s₀ tr s, Started flatMemory.resolver Counterexample.calls s₀ ∧ Run Step s₀ tr s ∧
      tr.map (fun q => Label.call q.2) = Counterexample.inputs ∧
      EveryStep (fun _ l => ∀ t, Granted l.services t) tr ∧
      EveryStep (EachStream fun l t x => ∃ r, LoadValid r l t x) tr ∧
      (∃ r, Sending (smallServices _ .success) 0 (.start (s.dwellTables 0) (s.dwellPkt 0)) true r ∧
        r.control.pktOffset = 2 ∧ (fillDwellPkt 0 r.control r.pkt).byteCount = 5) ∧
      ¬ PacketsAnnounce s := by
  obtain ⟨s₀, tr, s, h₀, run, hk, hc⟩ := flight_run flatMemory.resolver Counterexample.calls 10
    (blankState _) Counterexample.inputs
    (fun _ tr s =>
      let c := s.dwellTables 0
      let q := decrement (.start c (s.dwellPkt 0))
      let r := (getDwellData (smallServices _ .success) 0 q.control.currentEntry q).2
      EveryStep (fun _ l => ∀ t, Granted l.services t) tr ∧
        EveryStep (EachStream (LoadValid flatMemory.resolver)) tr ∧
        Active c ∧ c.currentEntry < c.addrCount ∧ dwellDue q = true ∧
        q.control.currentEntry + 1 = c.addrCount ∧ r.control.pktOffset = 2 ∧
        r.control.dataSize = 5)
    (by decide +kernel)
  obtain ⟨granted, loads, ha, hcur, hdue, hl, hoff, hsize⟩ := of_decide_eq_true hc
  have hs : Sending (smallServices _ .success) 0 (.start (s.dwellTables 0) (s.dwellPkt 0)) true _ :=
    .sampled ha hcur .enter hdue hl
  refine ⟨by decide +kernel, s₀, tr, s, h₀, run, hk, granted,
    fun q hq t => ⟨_, loads q hq t⟩, ⟨_, hs, hoff, hsize⟩, fun hp => ?_⟩
  have heq := (hp _ _ _ _ hs).2 rfl
  rw [hoff] at heq
  exact absurd (heq.symm.trans hsize) (by decide)

theorem packets_announce_run :
    ∃ s₀ tr s, Started flatMemory.resolver Counterexample.calls s₀ ∧ Run Step s₀ tr s ∧
      tr.map (fun q => Label.call q.2) =
        [(smallServices Counterexample.config .success, wakeupMsg Counterexample.config),
          (smallServices Counterexample.config .success,
            jamMsg Counterexample.config 1 2 4 1 16),
          (smallServices Counterexample.config .success, wakeupMsg Counterexample.config)] ∧
      EveryState PacketsAnnounce tr s := by
  obtain ⟨s₀, tr, s, h₀, run, hk, hc⟩ := flight_run flatMemory.resolver Counterexample.calls 10
    (blankState _) [(smallServices _ .success, wakeupMsg _),
      (smallServices _ .success, jamMsg _ 1 2 4 1 16), (smallServices _ .success, wakeupMsg _)]
    (fun _ tr _ => EveryStep (fun _ l => ∀ t, Granted l.services t) tr ∧
      EveryStep (EachStream (LoadValid flatMemory.resolver)) tr ∧
      EveryStep (EachStream JamKeepsCount) tr) (by decide +kernel)
  obtain ⟨granted, loads, jams⟩ := of_decide_eq_true hc
  exact ⟨s₀, tr, s, h₀, run, hk, packets_announce h₀ (by decide +kernel) (run_any run)
    granted
    (fun q hq t => ⟨_, loads q hq t⟩) jams⟩

end CollectedBytes
