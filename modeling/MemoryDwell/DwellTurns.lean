import MemoryDwell.CyclicSums
import MemoryDwell.DwellPkts

/-! # The turns of a dwell stream

A stream that is left alone takes its samples one after another, around and around its
table. Sample number `g` is of entry `g % AddrCount`, and comes when the delays before it
have passed. A pass takes the samples that have come due. -/
namespace DwellTurns

open DwellData DwellUtils DwellPkts CyclicSums FueledLoop

variable {cfg : Config}

/-- One sample: the bytes read, if any, and the packet after it. -/
structure Turn (cfg : Config) where
  data : Option (ℕ → UInt8)
  pkt : DwellPkt cfg

/-- A table that is sampled in rounds: the summary that MD_UpdateDwellControlInfo computes,
and a rate. -/
structure Cycling (c : DwellPacketControl cfg) : Prop where
  addrCount : c.addrCount = (updateDwellControlInfo c).addrCount
  dataSize : c.dataSize = (updateDwellControlInfo c).dataSize
  rate : c.rate = (updateDwellControlInfo c).rate
  rate_pos : 0 < c.rate

/-- And all that it samples has a known length. -/
structure Ready (c : DwellPacketControl cfg) : Prop extends Cycling c where
  length : ∀ i < c.addrCount, lengths c i = 1 ∨ lengths c i = 2 ∨ lengths c i = 4

instance (c : DwellPacketControl cfg) : Decidable (Cycling c) :=
  decidable_of_iff (c.addrCount = (updateDwellControlInfo c).addrCount ∧
      c.dataSize = (updateDwellControlInfo c).dataSize ∧
      c.rate = (updateDwellControlInfo c).rate ∧ 0 < c.rate)
    ⟨fun ⟨ha, hs, hr, hp⟩ => ⟨ha, hs, hr, hp⟩, fun ⟨ha, hs, hr, hp⟩ => ⟨ha, hs, hr, hp⟩⟩

instance (c : DwellPacketControl cfg) : Decidable (Ready c) :=
  decidable_of_iff (Cycling c ∧
      ∀ i < c.addrCount, lengths c i = 1 ∨ lengths c i = 2 ∨ lengths c i = 4)
    ⟨fun ⟨hc, hl⟩ => ⟨hc, hl⟩, fun ⟨hc, hl⟩ => ⟨hc, hl⟩⟩

/-- The wakeup at which sample `g` is taken, counted from one. -/
def sampleTime (c : DwellPacketControl cfg) (g : ℕ) : ℕ :=
  1 + cyclicSum (fun i => (delays c i).toNat) c.addrCount g

section Ready

variable {c : DwellPacketControl cfg}

theorem Cycling.addrCount_eq (h : Cycling c) : c.addrCount = activeLength cfg (lengths c) := by
  have ha := h.addrCount
  rwa [updateDwellControlInfo_eq] at ha

theorem Cycling.rate_eq (h : Cycling c) : c.rate = delaySum (delays c) c.addrCount := by
  have hr := h.rate
  rw [updateDwellControlInfo_eq] at hr
  rw [h.addrCount_eq]
  exact hr

theorem Cycling.addrCount_le (h : Cycling c) : c.addrCount ≤ cfg.dwellTableSize := by
  rw [h.addrCount_eq]
  exact activeLength_le _ _

theorem Cycling.delay (h : Cycling c) : ∃ i < c.addrCount, (delays c i).toNat ≠ 0 := by
  have hr := h.rate_pos
  rw [h.rate_eq] at hr
  exact PrefixSums.sum_range_pos_iff.mp hr

theorem Cycling.addrCount_pos (h : Cycling c) : 0 < c.addrCount := by
  obtain ⟨i, hi, -⟩ := h.delay
  exact Nat.zero_lt_of_lt hi

theorem Ready.length_le (h : Ready c) {i : ℕ} (hi : i < c.addrCount) :
    (lengths c i).toNat ≤ 4 := by
  rcases h.length i hi with hl | hl | hl <;> rw [hl] <;> decide

theorem lengthSum_succ (l : ℕ → UInt16) (k : ℕ) :
    lengthSum l (k + 1) = lengthSum l k + (l k).toNat := Finset.sum_range_succ _ _

theorem lengthSum_mono (l : ℕ → UInt16) {a b : ℕ} (h : a ≤ b) : lengthSum l a ≤ lengthSum l b :=
  PrefixSums.sum_range_le_of_le h

theorem Ready.place_le (h : Ready c) {i : ℕ} (hi : i < c.addrCount) :
    lengthSum (lengths c) i + (lengths c i).toNat ≤ dataBytes cfg := by
  have hall : lengthSum (lengths c) c.addrCount ≤ c.addrCount * 4 :=
    PrefixSums.sum_range_le fun _ => h.length_le
  have hmono := lengthSum_mono (lengths c) (show i + 1 ≤ c.addrCount from hi)
  rw [lengthSum_succ] at hmono
  have hn := h.addrCount_le
  rw [dataBytes]
  omega

theorem sampleTime_succ (c : DwellPacketControl cfg) (g : ℕ) :
    sampleTime c (g + 1) = sampleTime c g + (delays c (g % c.addrCount)).toNat := by
  rw [sampleTime, cyclicSum_succ, sampleTime, Nat.add_assoc]

theorem sampleTime_mono (c : DwellPacketControl cfg) {g h : ℕ} (hgh : g ≤ h) :
    sampleTime c g ≤ sampleTime c h := Nat.add_le_add_left (cyclicSum_mono hgh) 1

theorem Cycling.sampleTime_eq (h : Cycling c) {i : ℕ} (hi : i ≤ c.addrCount) (k : ℕ) :
    sampleTime c (k * c.addrCount + i) = 1 + (k * c.rate + delaySum (delays c) i) := by
  rw [sampleTime, cyclicSum_mul_add hi, h.rate_eq]
  rfl

theorem Cycling.sampleTime_injective (h : Cycling c) {g g' : ℕ}
    (hm : g % c.addrCount = g' % c.addrCount) (ht : sampleTime c g = sampleTime c g') : g = g' := by
  have hr := h.rate_pos
  rw [h.rate_eq] at hr
  exact cyclicSum_injective h.addrCount_pos hr hm (Nat.add_left_cancel ht)

end Ready

/-- What turn `g` does, with the time of it. -/
def turnLog (c : DwellPacketControl cfg) (t : TblIndex cfg) (g : ℕ) (u : Turn cfg) :
    List (ℕ × Action cfg) :=
  let i := g % c.addrCount
  (sampleTime c g, .sample t i (lengthSum (lengths c) i) (lengths c i).toNat u.data) ::
    if i + 1 = c.addrCount then [(sampleTime c g, .sendDwell t u.pkt)] else []

def turnsLog (c : DwellPacketControl cfg) (t : TblIndex cfg) (us : List (Turn cfg)) :
    List (ℕ × Action cfg) := us.zipIdx.flatMap fun q => turnLog c t q.2 q.1

theorem turnsLog_snoc (c : DwellPacketControl cfg) (t : TblIndex cfg) (us : List (Turn cfg))
    (u : Turn cfg) : turnsLog c t (us ++ [u]) = turnsLog c t us ++ turnLog c t us.length u := by
  simp [turnsLog, List.zipIdx_append]

theorem mem_turnsLog {c : DwellPacketControl cfg} {t : TblIndex cfg} {us : List (Turn cfg)}
    {q : ℕ × Action cfg} :
    q ∈ turnsLog c t us ↔ ∃ g u, us[g]? = some u ∧ q ∈ turnLog c t g u := by
  rw [turnsLog, List.mem_flatMap]
  constructor
  · rintro ⟨⟨u, g⟩, hu, hq⟩
    exact ⟨g, u, List.mk_mem_zipIdx_iff_getElem?.mp hu, hq⟩
  · rintro ⟨g, u, hu, hq⟩
    exact ⟨(u, g), List.mk_mem_zipIdx_iff_getElem?.mpr hu, hq⟩

def Holds (c : DwellPacketControl cfg) (i : ℕ) (data : Option (ℕ → UInt8)) (pkt : DwellPkt cfg) :
    Prop :=
  ∀ bytes, data = some bytes → ∀ j < (lengths c i).toNat,
    pkt.data (lengthSum (lengths c) i + j) = bytes j

/-- The packet has the bytes of all turns of the round of turn `g` up to it. -/
def HoldsRound (c : DwellPacketControl cfg) (us : List (Turn cfg)) (g : ℕ) (pkt : DwellPkt cfg) :
    Prop :=
  ∀ g' ≤ g, g' / c.addrCount = g / c.addrCount → ∀ u, us[g']? = some u →
    Holds c (g' % c.addrCount) u.data pkt

structure Complete (c : DwellPacketControl cfg) (us : List (Turn cfg)) (g : ℕ) (u : Turn cfg) :
    Prop where
  data : HoldsRound c us g u.pkt
  header : g % c.addrCount + 1 = c.addrCount →
    u.pkt.byteCount = c.dataSize ∧ u.pkt.addrCount = c.addrCount ∧ u.pkt.rate = c.rate

/-- The stream has taken the turns `us` and is in wakeup number `w`. -/
structure Position (c : DwellPacketControl cfg) (us : List (Turn cfg)) (w : ℕ)
    (d : DwellPacketControl cfg) (pkt : DwellPkt cfg) : Prop where
  contents : SameContents c d
  current : d.currentEntry = us.length % c.addrCount
  offset : d.pktOffset = lengthSum (lengths c) (us.length % c.addrCount)
  due : d.countdown + w = sampleTime c us.length
  held : HoldsRound c us us.length pkt
  complete : ∀ g u, us[g]? = some u → Complete c us g u

def Answered (svc : Services cfg) (c : DwellPacketControl cfg) : Action cfg → Prop
  | .sample t i _ numBytes data =>
    ∃ r, data = svc.memRead t r (c.entry i).resolvedAddress numBytes
  | _ => True

theorem storeData_holds {c : DwellPacketControl cfg} (h : Ready c) {i : ℕ} (hi : i < c.addrCount)
    (data : Option (ℕ → UInt8)) (pkt : DwellPkt cfg) :
    Holds c i data (storeData pkt (lengthSum (lengths c) i) (lengths c i).toNat data) := by
  rintro bytes rfl j hj
  have hp := h.place_le hi
  have hin : lengthSum (lengths c) i ≤ lengthSum (lengths c) i + j ∧
      lengthSum (lengths c) i + j < lengthSum (lengths c) i + (lengths c i).toNat ∧
      lengthSum (lengths c) i + j < dataBytes cfg := by omega
  simp only [storeData, writeData, if_pos hin, Nat.add_sub_cancel_left]

theorem storeData_keeps {c : DwellPacketControl cfg} {i i' : ℕ} (hi : i' < i)
    {data' : Option (ℕ → UInt8)} {pkt : DwellPkt cfg} (h : Holds c i' data' pkt)
    (data : Option (ℕ → UInt8)) :
    Holds c i' data' (storeData pkt (lengthSum (lengths c) i) (lengths c i).toNat data) := by
  intro bytes hb j hj
  have hmono := lengthSum_mono (lengths c) (show i' + 1 ≤ i from hi)
  rw [lengthSum_succ] at hmono
  rw [← h bytes hb j hj]
  cases data with
  | none => rfl
  | some new =>
    simp only [storeData, writeData]
    rw [if_neg (by omega)]

theorem Holds.of_data {c : DwellPacketControl cfg} {i : ℕ} {data : Option (ℕ → UInt8)}
    {pkt pkt' : DwellPkt cfg} (h : Holds c i data pkt) (hd : pkt'.data = pkt.data) :
    Holds c i data pkt' := by
  intro bytes hb j hj
  rw [hd]
  exact h bytes hb j hj

private theorem getElem?_snoc {α : Type*} {l : List α} {a b : α} {g : ℕ} :
    (l ++ [a])[g]? = some b ↔ l[g]? = some b ∨ g = l.length ∧ b = a := by
  rcases Nat.lt_trichotomy g l.length with h | rfl | h
  · simp [List.getElem?_append_left h, h.ne]
  · simp [eq_comm]
  · simp [List.getElem?_append_right h.le, h.ne', h.le, show g - l.length ≠ 0 by omega]

section Turn

variable {svc : Services cfg} {t : TblIndex cfg} {c : DwellPacketControl cfg}
  {us : List (Turn cfg)} {w : ℕ} {p : Pass cfg}

/-- What a turn finds: the entry whose turn it is, at its place and its time. -/
theorem Position.found (h : Ready c) (hp : Position c us w p.control p.pkt)
    (hdue : dwellDue p = true) :
    p.control.currentEntry = us.length % c.addrCount ∧ us.length % c.addrCount < c.addrCount ∧
      (p.control.entry p.control.currentEntry).length.toNat % 256 =
        (lengths c (us.length % c.addrCount)).toNat ∧ sampleTime c us.length = w := by
  have hi := Nat.mod_lt us.length h.addrCount_pos
  refine ⟨hp.current, hi, ?_, ?_⟩
  · rw [hp.contents.entry, hp.current]
    have hl := h.length_le hi
    exact Nat.mod_eq_of_lt (Nat.lt_of_le_of_lt hl (by decide))
  · have h0 : p.control.countdown = 0 := by simpa [dwellDue] using hdue
    rw [← hp.due, h0, Nat.zero_add]

def turnOf (svc : Services cfg) (t : TblIndex cfg) (c : DwellPacketControl cfg) (p : Pass cfg) :
    Turn cfg :=
  ⟨fetched svc t p.control.currentEntry p, (dwellStep svc t c.addrCount p).pkt⟩

theorem turn_log (h : Ready c) (hp : Position c us w p.control p.pkt) (hdue : dwellDue p = true) :
    (dwellStep svc t c.addrCount p).actions.map (Prod.mk w) =
      p.actions.map (Prod.mk w) ++ turnLog c t us.length (turnOf svc t c p) := by
  obtain ⟨hcur, hi, hlen, htime⟩ := hp.found h hdue
  rw [dwellStep_actions, hlen, hp.offset]
  simp only [List.map_append, List.map_cons, turnLog, htime, turnOf, hcur]
  split_ifs <;> rfl

theorem turn_holds (h : Ready c) (hp : Position c us w p.control p.pkt)
    (hdue : dwellDue p = true) :
    HoldsRound c (us ++ [turnOf svc t c p]) us.length (dwellStep svc t c.addrCount p).pkt := by
  obtain ⟨hcur, hi, hlen, -⟩ := hp.found h hdue
  have hdata : (dwellStep svc t c.addrCount p).pkt.data =
      (storeData p.pkt (lengthSum (lengths c) (us.length % c.addrCount))
        (lengths c (us.length % c.addrCount)).toNat
        (fetched svc t p.control.currentEntry p)).data := by
    rw [dwellStep_pkt, hlen, hp.offset]
    split_ifs <;> rfl
  intro g hg hround u hu
  rcases getElem?_snoc.mp hu with hold | ⟨rfl, rfl⟩
  · have hlt : g < us.length := (List.getElem?_eq_some_iff.mp hold).1
    have hmod : g % c.addrCount < us.length % c.addrCount := by
      have hg' := Nat.div_add_mod g c.addrCount
      have hl' := Nat.div_add_mod us.length c.addrCount
      rw [hround] at hg'
      omega
    exact (storeData_keeps hmod (hp.held g hg hround u hold) _).of_data hdata
  · exact (storeData_holds h hi _ p.pkt).of_data hdata

theorem turn_header (hN : cfg.dwellTableSize ≤ 255) (h : Ready c)
    (hp : Position c us w p.control p.pkt) (hl : us.length % c.addrCount + 1 = c.addrCount) :
    let pkt := (dwellStep svc t c.addrCount p).pkt
    pkt.byteCount = c.dataSize ∧ pkt.addrCount = c.addrCount ∧ pkt.rate = c.rate := by
  have hn : c.addrCount < 256 := by
    have := h.addrCount_le
    omega
  rw [dwellStep_pkt, hp.current, if_pos hl]
  refine ⟨hp.contents.dataSize, ?_, hp.contents.rate⟩
  exact (congrArg (· % 256) hp.contents.addrCount).trans (Nat.mod_eq_of_lt hn)

theorem turn_position (hN : cfg.dwellTableSize ≤ 255) (h : Ready c)
    (hp : Position c us w p.control p.pkt) (hdue : dwellDue p = true) :
    Position c (us ++ [turnOf svc t c p]) w (dwellStep svc t c.addrCount p).control
      (dwellStep svc t c.addrCount p).pkt := by
  obtain ⟨hcur, hi, hlen, htime⟩ := hp.found h hdue
  have hn := h.addrCount_le
  have hsucc := succ_mod_eq h.addrCount_pos us.length
  have hround : HoldsRound c (us ++ [turnOf svc t c p]) us.length
      (dwellStep svc t c.addrCount p).pkt := turn_holds h hp hdue
  rw [dwellStep_control]
  constructor
  · exact hp.contents.trans (advance_contents _ _)
  · rw [advance_currentEntry (by omega) (hcur ▸ hi), hcur, List.length_append]
    exact hsucc.symm
  · rw [List.length_append, List.length_singleton, hsucc, advance, hcur]
    split_ifs with hl
    · rfl
    · have hplace := h.place_le hi
      rw [← hcur] at hlen ⊢
      simp only [lengthSum_succ, hlen, hp.offset]
      rw [hcur]
      rw [dataBytes] at hplace
      apply Nat.mod_eq_of_lt
      omega
  · rw [advance_countdown, List.length_append, List.length_singleton, sampleTime_succ, htime,
      hp.contents.entry, hcur, Nat.add_comm]
  · intro g hg hr u hu
    rw [List.length_append, List.length_singleton] at hg hr
    have hle : g ≤ us.length := by
      have hlt : g < (us ++ [turnOf svc t c p]).length := (List.getElem?_eq_some_iff.mp hu).1
      rw [List.length_append, List.length_singleton] at hlt
      omega
    have hdiv := Nat.div_le_div_right (c := c.addrCount) hle
    have hdiv' := Nat.div_le_div_right (c := c.addrCount) (Nat.le_add_right us.length 1)
    exact hround g hle (by omega) u hu
  · intro g u hu
    rcases getElem?_snoc.mp hu with hold | ⟨rfl, rfl⟩
    · have hlt : g < us.length := (List.getElem?_eq_some_iff.mp hold).1
      refine ⟨?_, (hp.complete g u hold).header⟩
      intro g' hg' hr v hv
      rcases getElem?_snoc.mp hv with hv | ⟨rfl, -⟩
      · exact (hp.complete g u hold).data g' hg' hr v hv
      · omega
    · exact ⟨hround, turn_header hN h hp⟩

/-- What is read is what MD_GetDwellData puts into the packet, for the lengths it knows. -/
theorem turn_answered (h : Ready c) (hp : Position c us w p.control p.pkt)
    (hdue : dwellDue p = true) (ha : ∀ a ∈ p.actions, Answered svc c a) :
    ∀ a ∈ (dwellStep svc t c.addrCount p).actions, Answered svc c a := by
  obtain ⟨hcur, hi, hlen, -⟩ := hp.found h hdue
  have hread : fetched svc t p.control.currentEntry p =
      svc.memRead t p.reads (c.entry (us.length % c.addrCount)).resolvedAddress
        (lengths c (us.length % c.addrCount)).toNat := by
    rw [fetched, hlen, hp.contents.entry, hcur]
    generalize svc.memRead t p.reads _ _ = read
    rcases h.length _ hi with hl | hl | hl <;> rw [hl] <;> cases read <;> rfl
  rw [dwellStep_actions]
  intro a hmem
  rcases List.mem_append.mp hmem with hmem | hmem
  · exact ha a hmem
  · rcases List.mem_cons.mp hmem with rfl | hmem
    · refine ⟨p.reads, ?_⟩
      rw [hread, hlen, hcur]
    · split_ifs at hmem
      · rw [List.mem_singleton.mp hmem]
        trivial
      · cases hmem

end Turn

/-- What the turns of one pass keep: the log, the position, and the answers to the reads. -/
structure Progress (svc : Services cfg) (t : TblIndex cfg) (c : DwellPacketControl cfg)
    (us : List (Turn cfg)) (w : ℕ) (us' : List (Turn cfg)) (p : Pass cfg) : Prop where
  log : turnsLog c t us' = turnsLog c t us ++ p.actions.map (Prod.mk w)
  position : Position c us' w p.control p.pkt
  answered : ∀ a ∈ p.actions, Answered svc c a

theorem turn_progress {svc : Services cfg} {t : TblIndex cfg} {c : DwellPacketControl cfg}
    {us us' : List (Turn cfg)} {w : ℕ} {p : Pass cfg} (hN : cfg.dwellTableSize ≤ 255)
    (h : Ready c) (hp : Progress svc t c us w us' p) (hdue : dwellDue p = true) :
    Progress svc t c us w (us' ++ [turnOf svc t c p]) (dwellStep svc t c.addrCount p) := by
  refine ⟨?_, turn_position hN h hp.position hdue, turn_answered h hp.position hdue hp.answered⟩
  rw [turnsLog_snoc, hp.log, turn_log h hp.position hdue, List.append_assoc]

/-- A pass takes the turns that are due, and leaves the stream waiting for the next one. -/
theorem pass_progress {svc : Services cfg} {t : TblIndex cfg} {c d : DwellPacketControl cfg}
    {us : List (Turn cfg)} {w fuel : ℕ} {pkt : DwellPkt cfg} {q : Pass cfg}
    (hN : cfg.dwellTableSize ≤ 255) (h : Ready c) (he : c.enabled = dwellEnabled)
    (hp : Position c us w d pkt) (hc : 1 ≤ d.countdown)
    (hpass : dwellTable svc fuel t (.start d pkt) = some q) :
    ∃ us', Progress svc t c us (w + 1) us' q ∧ 1 ≤ q.control.countdown := by
  have hon : d.enabled = dwellEnabled ∧ 0 < d.rate := by
    rw [hp.contents.enabled, hp.contents.rate]
    exact ⟨he, h.rate_pos⟩
  have hcount : d.addrCount = c.addrCount := hp.contents.addrCount
  have hcur : d.currentEntry < d.addrCount := by
    rw [hp.current, hcount]
    exact Nat.mod_lt _ h.addrCount_pos
  rw [dwellTable_loop svc fuel t hon hcur, start_control, hcount] at hpass
  have hfirst : Progress svc t c us (w + 1) us (decrement (.start d pkt)) := by
    refine ⟨by simp [decrement], ?_, by simp [decrement]⟩
    refine ⟨hp.contents.trans ⟨rfl, rfl, rfl, rfl, rfl, rfl⟩, hp.current, hp.offset, ?_, hp.held,
      hp.complete⟩
    have hdue := hp.due
    have hdec : (decrement (.start d pkt)).control.countdown = d.countdown - 1 :=
      if_neg (show ¬ d.countdown = 0 by omega)
    omega
  obtain ⟨⟨us', hq⟩, hexit⟩ :
      (∃ us', Progress svc t c us (w + 1) us' q) ∧ dwellDue q = false := by
    apply while_invariant (I := fun p => ∃ us', Progress svc t c us (w + 1) us' p) _
      ⟨us, hfirst⟩ hpass
    rintro p ⟨us', hp⟩ hdue
    exact ⟨_, turn_progress hN h hp hdue⟩
  have h0 : q.control.countdown ≠ 0 := by simpa [dwellDue] using hexit
  exact ⟨us', hq, Nat.one_le_iff_ne_zero.mpr h0⟩

theorem turnsLog_defined {t : TblIndex cfg} {c : DwellPacketControl cfg} {us : List (Turn cfg)}
    (h : Ready c) {q : ℕ × Action cfg} (hq : q ∈ turnsLog c t us) : ActionDefined q.2 := by
  obtain ⟨g, u, -, hq⟩ := mem_turnsLog.mp hq
  have hi := Nat.mod_lt g h.addrCount_pos
  rcases List.mem_cons.mp hq with rfl | hq
  · exact ⟨hi.trans_le h.addrCount_le, fun _ => h.place_le hi⟩
  · split_ifs at hq
    · rw [List.mem_singleton.mp hq]
      trivial
    · cases hq

end DwellTurns
