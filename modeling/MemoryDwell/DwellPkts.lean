import MemoryDwell.DwellUtils
import MemoryDwell.FueledLoop

/-! # Collecting and sending dwell packets (md_dwell_pkt.c)

A pass over one table works on that table's control structure and packet alone; the
wakeup is the loop of these passes over all tables. -/
namespace DwellPkts

open DwellData DwellUtils FueledLoop

variable {cfg : Config}

/-- `memcpy` into `Payload.Data`. Bytes that would land past the array are not kept here,
while in memory they reach the packets behind: what is said of packets is said of steps
whose copies stay inside, see `ActionDefined`. -/
def writeData (pkt : DwellPkt cfg) (offset numBytes : ℕ) (bytes : ℕ → UInt8) : DwellPkt cfg :=
  { pkt with
    data := fun i =>
      if offset ≤ i ∧ i < offset + numBytes ∧ i < dataBytes cfg then bytes (i - offset)
      else pkt.data i }

structure Pass (cfg : Config) where
  control : DwellPacketControl cfg
  pkt : DwellPkt cfg
  status : CFEStatus
  reads : ℕ
  actions : List (Action cfg)
  events : List EventMsg

def Pass.start (control : DwellPacketControl cfg) (pkt : DwellPkt cfg) : Pass cfg :=
  ⟨control, pkt, .success, 0, [], []⟩

@[simp] theorem start_control (c : DwellPacketControl cfg) (k : DwellPkt cfg) :
    (Pass.start c k).control = c := rfl
@[simp] theorem start_pkt (c : DwellPacketControl cfg) (k : DwellPkt cfg) :
    (Pass.start c k).pkt = k := rfl
@[simp] theorem start_actions (c : DwellPacketControl cfg) (k : DwellPkt cfg) :
    (Pass.start c k).actions = [] := rfl

/-- The switch over the number of bytes; the default branch reads nothing. -/
def readStatus (numBytes : ℕ) (read : Option (ℕ → UInt8)) : CFEStatus :=
  match numBytes with
  | 1 => if read.isSome then .success else oneByteMemAddrReadErr
  | 2 => if read.isSome then .success else twoByteMemAddrReadErr
  | 4 => if read.isSome then .success else fourByteMemAddrReadErr
  | _ => invalidDwellAddrLen

def fetched (svc : Services cfg) (t : TblIndex cfg) (entryIndex : ℕ) (p : Pass cfg) :
    Option (ℕ → UInt8) :=
  let numBytes := (p.control.entry entryIndex).length.toNat % 256
  let read := svc.memRead t p.reads (p.control.entry entryIndex).resolvedAddress numBytes
  if readStatus numBytes read = .success then read else none

def storeData (pkt : DwellPkt cfg) (offset numBytes : ℕ) : Option (ℕ → UInt8) → DwellPkt cfg
  | some bytes => writeData pkt offset numBytes bytes
  | none => pkt

def getDwellData (svc : Services cfg) (t : TblIndex cfg) (entryIndex : ℕ) (p : Pass cfg) :
    CFEStatus × Pass cfg :=
  let numBytes := (p.control.entry entryIndex).length.toNat % 256
  let read := svc.memRead t p.reads (p.control.entry entryIndex).resolvedAddress numBytes
  let data := fetched svc t entryIndex p
  let offset := p.control.pktOffset
  (readStatus numBytes read,
    { p with
      control := { p.control with pktOffset := (offset + numBytes) % 65536 }
      pkt := storeData p.pkt offset numBytes data
      reads := p.reads + 1
      actions := p.actions ++ [.sample t entryIndex offset numBytes data] })

/-- The packet as MD_SendDwellPkt fills it: id and count are `uint8`, the size `uint16`. -/
def fillDwellPkt (t : TblIndex cfg) (control : DwellPacketControl cfg) (pkt : DwellPkt cfg) :
    DwellPkt cfg :=
  { pkt with
    tableId := (t.val + 1) % 256
    addrCount := control.addrCount % 256
    rate := control.rate
    signature := pkt.signature.copyTerminated control.signature
    byteCount := control.dataSize
    size := (dwellPktSizeof cfg - cfg.dwellTableSize * 4 + control.dataSize) % 65536 }

def sendDwellPkt (t : TblIndex cfg) (p : Pass cfg) : Pass cfg :=
  let pkt := fillDwellPkt t p.control p.pkt
  { p with pkt := pkt, actions := p.actions ++ [.sendDwell t pkt] }

/-- A failed read is reported and remembered; the packet is built nevertheless. -/
def noteResult (t : TblIndex cfg) (entryIndex : ℕ) (result : CFEStatus) (p : Pass cfg) :
    Pass cfg :=
  if result ≠ .success then
    { p with
      status := result
      events := p.events ++ [.dwellLoopGetDwellDataErr entryIndex t] }
  else p

/-- One turn of `while (TblPtr->Countdown == 0)`. -/
def dwellStep (svc : Services cfg) (t : TblIndex cfg) (numDwellAddresses : ℕ) (p : Pass cfg) :
    Pass cfg :=
  let entryIndex := p.control.currentEntry
  let (result, p) := getDwellData svc t entryIndex p
  let p := noteResult t entryIndex result p
  if (entryIndex : ℤ) = (numDwellAddresses : ℤ) - 1 then
    let p := sendDwellPkt t p
    { p with control := { p.control with
        countdown := (p.control.entry entryIndex).delay.toNat
        currentEntry := 0
        pktOffset := 0 } }
  else
    { p with control := { p.control with
        countdown := (p.control.entry entryIndex).delay.toNat
        currentEntry := (p.control.currentEntry + 1) % 65536 } }

/-- The packet is already full: the table was shortened behind the current entry. -/
def sendFullPkt (t : TblIndex cfg) (p : Pass cfg) : Pass cfg :=
  let p := sendDwellPkt t p
  let last : ℤ := (p.control.addrCount : ℤ) - 1
  { p with
    control := { p.control with
      currentEntry := 0
      pktOffset := 0
      countdown := (p.control.entry last.toNat).delay.toNat }
    actions := p.actions ++ [.restart t last] }

/-- `TblPtr->Countdown--`, on a `uint32`. -/
def decrement (p : Pass cfg) : Pass cfg :=
  { p with control := { p.control with
      countdown := if p.control.countdown = 0 then 4294967295 else p.control.countdown - 1 } }

def dwellDue (p : Pass cfg) : Bool := p.control.countdown = 0

/-- The body of MD_DwellLoop for one table. -/
def dwellTable (svc : Services cfg) (fuel : ℕ) (t : TblIndex cfg) (p : Pass cfg) :
    Option (Pass cfg) :=
  let numDwellAddresses := p.control.addrCount
  if p.control.enabled = dwellEnabled ∧ 0 < p.control.rate then
    if numDwellAddresses ≤ p.control.currentEntry then some (sendFullPkt t p)
    else whileLoop dwellDue (dwellStep svc t numDwellAddresses) fuel (decrement p)
  else some p

structure Wakeup (cfg : Config) where
  state : State cfg
  status : CFEStatus
  actions : List (Action cfg)

/-- MD_DwellLoop returns the last read error of all tables. -/
def dwellTurn (svc : Services cfg) (fuel : ℕ) (w : Wakeup cfg) (t : TblIndex cfg) :
    Option (Wakeup cfg) :=
  (dwellTable svc fuel t (.start (w.state.dwellTables t) (w.state.dwellPkt t))).map fun p =>
    { state := { w.state with
        dwellTables := Function.update w.state.dwellTables t p.control
        dwellPkt := Function.update w.state.dwellPkt t p.pkt
        events := w.state.events ++ p.events }
      status := if p.status = .success then w.status else p.status
      actions := w.actions ++ p.actions }

def dwellLoop (svc : Services cfg) (fuel : ℕ) (s : State cfg) : Option (Wakeup cfg) :=
  (List.finRange cfg.numDwellTables).foldlM (dwellTurn svc fuel) ⟨s, .success, []⟩

def startDwellStream (c : DwellPacketControl cfg) : DwellPacketControl cfg :=
  { c with countdown := 1, currentEntry := 0, pktOffset := 0 }

def actionTable : Action cfg → Option (TblIndex cfg)
  | .sample t _ _ _ _ | .restart t _ | .sendDwell t _ => some t
  | .sendHk _ | .install _ _ _ => none

def actionsOf (t : TblIndex cfg) (as : List (Action cfg)) : List (Action cfg) :=
  as.filter fun a => actionTable a = some t

/-- An action stays inside the C arrays: entry indices inside `Entry`, copies inside
`Payload.Data`. -/
def ActionDefined : Action cfg → Prop
  | .sample _ entry offset numBytes data =>
    entry < cfg.dwellTableSize ∧ (data.isSome = true → offset + numBytes ≤ dataBytes cfg)
  | .restart _ entry => 0 ≤ entry ∧ entry < cfg.dwellTableSize
  | .sendDwell _ _ | .sendHk _ | .install _ _ _ => True

instance : (a : Action cfg) → Decidable (ActionDefined a)
  | .sample _ _ _ _ _ | .restart _ _ => inferInstanceAs (Decidable (_ ∧ _))
  | .sendDwell _ _ | .sendHk _ | .install _ _ _ => inferInstanceAs (Decidable True)

section Note

variable (t : TblIndex cfg) (i : ℕ) (result : CFEStatus) (p : Pass cfg)

@[simp] theorem noteResult_control : (noteResult t i result p).control = p.control := by
  rw [noteResult]; split_ifs <;> rfl
@[simp] theorem noteResult_pkt : (noteResult t i result p).pkt = p.pkt := by
  rw [noteResult]; split_ifs <;> rfl
@[simp] theorem noteResult_reads : (noteResult t i result p).reads = p.reads := by
  rw [noteResult]; split_ifs <;> rfl
@[simp] theorem noteResult_actions : (noteResult t i result p).actions = p.actions := by
  rw [noteResult]; split_ifs <;> rfl

end Note

/-- What a turn does to the position, whatever is read. -/
def advance (n : ℕ) (c : DwellPacketControl cfg) : DwellPacketControl cfg :=
  let e := c.entry c.currentEntry
  if c.currentEntry + 1 = n then
    { c with countdown := e.delay.toNat, currentEntry := 0, pktOffset := 0 }
  else
    { c with
      countdown := e.delay.toNat
      currentEntry := (c.currentEntry + 1) % 65536
      pktOffset := (c.pktOffset + e.length.toNat % 256) % 65536 }

theorem advance_countdown (n : ℕ) (c : DwellPacketControl cfg) :
    (advance n c).countdown = (c.entry c.currentEntry).delay.toNat := by
  rw [advance]
  split_ifs <;> rfl

theorem advance_currentEntry {n : ℕ} (hn : n ≤ 65535) {c : DwellPacketControl cfg}
    (hc : c.currentEntry < n) :
    (advance n c).currentEntry = if c.currentEntry + 1 = n then 0 else c.currentEntry + 1 := by
  rw [advance]
  split_ifs with hl
  · rfl
  · apply Nat.mod_eq_of_lt
    omega

theorem advance_currentEntry_lt {n : ℕ} (hn : n ≤ 65535) {c : DwellPacketControl cfg}
    (hc : c.currentEntry < n) : (advance n c).currentEntry < n := by
  rw [advance_currentEntry hn hc]
  split_ifs <;> omega

section Turn

variable (svc : Services cfg) (t : TblIndex cfg) (n : ℕ) (p : Pass cfg)

private theorem last_iff (c n : ℕ) : (c : ℤ) = (n : ℤ) - 1 ↔ c + 1 = n := by omega

theorem dwellStep_control : (dwellStep svc t n p).control = advance n p.control := by
  simp only [dwellStep, getDwellData, sendDwellPkt, advance, last_iff]
  split_ifs <;> simp

theorem dwellStep_pkt :
    (dwellStep svc t n p).pkt =
      let pkt := storeData p.pkt p.control.pktOffset
        ((p.control.entry p.control.currentEntry).length.toNat % 256)
        (fetched svc t p.control.currentEntry p)
      if p.control.currentEntry + 1 = n then fillDwellPkt t p.control pkt else pkt := by
  simp only [dwellStep, getDwellData, sendDwellPkt, last_iff]
  split_ifs <;> simp [fillDwellPkt]

theorem dwellStep_actions :
    (dwellStep svc t n p).actions = p.actions ++
      .sample t p.control.currentEntry p.control.pktOffset
        ((p.control.entry p.control.currentEntry).length.toNat % 256)
        (fetched svc t p.control.currentEntry p) ::
      if p.control.currentEntry + 1 = n then [.sendDwell t (dwellStep svc t n p).pkt] else [] := by
  simp only [dwellStep, getDwellData, sendDwellPkt, last_iff]
  split_ifs <;> simp

end Turn

/-- The part of a control structure that a pass only reads. -/
structure SameContents (c d : DwellPacketControl cfg) : Prop where
  enabled : d.enabled = c.enabled
  addrCount : d.addrCount = c.addrCount
  rate : d.rate = c.rate
  dataSize : d.dataSize = c.dataSize
  entry : d.entry = c.entry
  signature : d.signature = c.signature

theorem SameContents.refl (c : DwellPacketControl cfg) : SameContents c c :=
  ⟨rfl, rfl, rfl, rfl, rfl, rfl⟩

theorem SameContents.symm {c d : DwellPacketControl cfg} (h : SameContents c d) :
    SameContents d c :=
  ⟨h.enabled.symm, h.addrCount.symm, h.rate.symm, h.dataSize.symm, h.entry.symm,
    h.signature.symm⟩

theorem SameContents.trans {a b c : DwellPacketControl cfg} (h : SameContents a b)
    (k : SameContents b c) : SameContents a c :=
  ⟨k.enabled.trans h.enabled, k.addrCount.trans h.addrCount, k.rate.trans h.rate,
    k.dataSize.trans h.dataSize, k.entry.trans h.entry, k.signature.trans h.signature⟩

theorem advance_contents (n : ℕ) (c : DwellPacketControl cfg) : SameContents c (advance n c) := by
  rw [advance]
  split_ifs <;> exact ⟨rfl, rfl, rfl, rfl, rfl, rfl⟩

/-! The three ways through the body of MD_DwellLoop. -/

section Ways

variable (svc : Services cfg) (fuel : ℕ) (t : TblIndex cfg) {p : Pass cfg}

theorem dwellTable_off (h : ¬(p.control.enabled = dwellEnabled ∧ 0 < p.control.rate)) :
    dwellTable svc fuel t p = some p := if_neg h

theorem dwellTable_full (h : p.control.enabled = dwellEnabled ∧ 0 < p.control.rate)
    (hf : p.control.addrCount ≤ p.control.currentEntry) :
    dwellTable svc fuel t p = some (sendFullPkt t p) :=
  (if_pos h).trans (if_pos hf)

theorem dwellTable_loop (h : p.control.enabled = dwellEnabled ∧ 0 < p.control.rate)
    (hc : p.control.currentEntry < p.control.addrCount) :
    dwellTable svc fuel t p =
      whileLoop dwellDue (dwellStep svc t p.control.addrCount) fuel (decrement p) :=
  (if_pos h).trans (if_neg (Nat.not_le.mpr hc))

end Ways

theorem dwellTable_cases {svc : Services cfg} {fuel : ℕ} {t : TblIndex cfg} {p q : Pass cfg}
    (h : dwellTable svc fuel t p = some q) :
    (¬(p.control.enabled = dwellEnabled ∧ 0 < p.control.rate) ∧ q = p) ∨
    (p.control.enabled = dwellEnabled ∧ 0 < p.control.rate ∧
      p.control.addrCount ≤ p.control.currentEntry ∧ q = sendFullPkt t p) ∨
    (p.control.enabled = dwellEnabled ∧ 0 < p.control.rate ∧
      p.control.currentEntry < p.control.addrCount ∧
      whileLoop dwellDue (dwellStep svc t p.control.addrCount) fuel (decrement p) = some q) := by
  by_cases ha : p.control.enabled = dwellEnabled ∧ 0 < p.control.rate
  · by_cases hf : p.control.addrCount ≤ p.control.currentEntry
    · rw [dwellTable_full svc fuel t ha hf] at h
      exact Or.inr (Or.inl ⟨ha.1, ha.2, hf, (Option.some.inj h).symm⟩)
    · rw [dwellTable_loop svc fuel t ha (Nat.lt_of_not_le hf)] at h
      exact Or.inr (Or.inr ⟨ha.1, ha.2, Nat.lt_of_not_le hf, h⟩)
  · rw [dwellTable_off svc fuel t ha] at h
    exact Or.inl ⟨ha, (Option.some.inj h).symm⟩

/-- What holds before a pass and is kept by each of its parts holds after it. -/
theorem dwellTable_keeps {svc : Services cfg} {fuel : ℕ} {t : TblIndex cfg} {I : Pass cfg → Prop}
    {p q : Pass cfg} (h : dwellTable svc fuel t p = some q) (hp : I p)
    (full : p.control.addrCount ≤ p.control.currentEntry → I (sendFullPkt t p))
    (dec : p.control.currentEntry < p.control.addrCount → I (decrement p))
    (step : ∀ r, I r → dwellDue r = true → I (dwellStep svc t p.control.addrCount r)) : I q := by
  rcases dwellTable_cases h with ⟨-, rfl⟩ | ⟨-, -, hf, rfl⟩ | ⟨-, -, hc, hw⟩
  · exact hp
  · exact full hf
  · exact (while_invariant step (dec hc) hw).1

theorem dwellTable_contents {svc : Services cfg} {fuel : ℕ} {t : TblIndex cfg} {p q : Pass cfg}
    (h : dwellTable svc fuel t p = some q) : SameContents p.control q.control := by
  refine dwellTable_keeps (I := fun r => SameContents p.control r.control) h (.refl _) ?_ ?_ ?_
  · intro _
    exact ⟨rfl, rfl, rfl, rfl, rfl, rfl⟩
  · intro _
    exact ⟨rfl, rfl, rfl, rfl, rfl, rfl⟩
  · intro r hr _
    rw [dwellStep_control]
    exact hr.trans (advance_contents _ _)

theorem dwellTable_actions {svc : Services cfg} {fuel : ℕ} {t : TblIndex cfg}
    {c : DwellPacketControl cfg} {k : DwellPkt cfg} {q : Pass cfg}
    (h : dwellTable svc fuel t (.start c k) = some q) :
    ∀ a ∈ q.actions, actionTable a = some t := by
  refine dwellTable_keeps (I := fun r => ∀ a ∈ r.actions, actionTable a = some t) h ?_ ?_ ?_ ?_
  · simp [Pass.start]
  · intro _
    simp [sendFullPkt, sendDwellPkt, Pass.start, actionTable]
  · intro _
    simp [decrement, Pass.start]
  · intro r hr _
    rw [dwellStep_actions]
    split_ifs <;> simp only [List.mem_append, List.mem_cons, List.not_mem_nil, or_false] <;>
      rintro a (ha | ha)
    · exact hr a ha
    · rcases ha with rfl | rfl <;> rfl
    · exact hr a ha
    · rw [ha]
      rfl

def Wakeup.stream (w : Wakeup cfg) (t : TblIndex cfg) :
    DwellPacketControl cfg × DwellPkt cfg × List (Action cfg) :=
  (w.state.dwellTables t, w.state.dwellPkt t, actionsOf t w.actions)

private theorem actionsOf_other {t u : TblIndex cfg} {as : List (Action cfg)}
    (h : ∀ a ∈ as, actionTable a = some u) (htu : t ≠ u) : actionsOf t as = [] := by
  simp only [actionsOf, List.filter_eq_nil_iff, decide_eq_true_eq]
  intro a ha hat
  rw [h a ha] at hat
  exact htu (Option.some.inj hat).symm

private theorem actionsOf_self {t : TblIndex cfg} {as : List (Action cfg)}
    (h : ∀ a ∈ as, actionTable a = some t) : actionsOf t as = as := by
  simp only [actionsOf, List.filter_eq_self, decide_eq_true_eq]
  exact h

theorem actionsOf_append (t : TblIndex cfg) (as bs : List (Action cfg)) :
    actionsOf t (as ++ bs) = actionsOf t as ++ actionsOf t bs := List.filter_append ..

theorem dwellTurn_some {svc : Services cfg} {fuel : ℕ} {w v : Wakeup cfg} {t : TblIndex cfg}
    (h : dwellTurn svc fuel w t = some v) :
    ∃ p, dwellTable svc fuel t (.start (w.state.dwellTables t) (w.state.dwellPkt t)) = some p ∧
      v.stream t = (p.control, p.pkt, actionsOf t w.actions ++ p.actions) ∧
      (∀ u ≠ t, v.stream u = w.stream u) := by
  rw [dwellTurn, Option.map_eq_some_iff] at h
  obtain ⟨p, hp, rfl⟩ := h
  have ha := dwellTable_actions hp
  refine ⟨p, hp, ?_, ?_⟩
  · simp [Wakeup.stream, actionsOf_append, actionsOf_self ha]
  · intro u hu
    simp [Wakeup.stream, actionsOf_append, actionsOf_other ha hu, Function.update_of_ne hu]

/-- A wakeup is one pass over each table. -/
theorem dwellLoop_stream {svc : Services cfg} {fuel : ℕ} {s : State cfg} {w : Wakeup cfg}
    (h : dwellLoop svc fuel s = some w) (t : TblIndex cfg) :
    ∃ p, dwellTable svc fuel t (.start (s.dwellTables t) (s.dwellPkt t)) = some p ∧
      w.state.dwellTables t = p.control ∧ w.state.dwellPkt t = p.pkt ∧
      actionsOf t w.actions = p.actions := by
  have hg := foldlM_component (p := Wakeup.stream)
    (G := fun x y => ∃ p, dwellTable svc fuel t (.start x.1 x.2.1) = some p ∧
      y = (p.control, p.pkt, x.2.2 ++ p.actions))
    (fun w v i j hv hj => (dwellTurn_some hv).elim fun _ hp => hp.2.2 j hj)
    (fun w v hv => (dwellTurn_some hv).elim fun p hp => ⟨p, hp.1, hp.2.1⟩)
    (List.nodup_finRange _) (List.mem_finRange t) h
  obtain ⟨p, hp, he⟩ := hg
  simp only [Wakeup.stream, Prod.mk.injEq] at he
  exact ⟨p, hp, he.1, he.2.1, by simpa [actionsOf] using he.2.2⟩

theorem dwellLoop_rest {svc : Services cfg} {fuel : ℕ} {s : State cfg} {w : Wakeup cfg}
    (h : dwellLoop svc fuel s = some w) :
    w.state.cmdCounter = s.cmdCounter ∧ w.state.errCounter = s.errCounter ∧
      w.state.hkPkt = s.hkPkt ∧ w.state.tblBuffer = s.tblBuffer := by
  refine foldlM_keeps (I := fun w : Wakeup cfg => w.state.cmdCounter = s.cmdCounter ∧
    w.state.errCounter = s.errCounter ∧ w.state.hkPkt = s.hkPkt ∧
    w.state.tblBuffer = s.tblBuffer) ?_ ⟨rfl, rfl, rfl, rfl⟩ h
  intro w i v hw hv
  rw [dwellTurn, Option.map_eq_some_iff] at hv
  obtain ⟨p, -, rfl⟩ := hv
  exact hw

theorem dwellTable_mono {svc : Services cfg} {a b : ℕ} (hab : a ≤ b) {t : TblIndex cfg}
    {p q : Pass cfg} (h : dwellTable svc a t p = some q) : dwellTable svc b t p = some q := by
  simp only [dwellTable] at h ⊢
  split_ifs at h ⊢
  · exact h
  · exact while_mono hab h
  · exact h

theorem dwellLoop_total {svc : Services cfg} {s : State cfg}
    (h : ∀ t, ∃ fuel p, dwellTable svc fuel t (.start (s.dwellTables t) (s.dwellPkt t)) = some p) :
    ∃ fuel w, dwellLoop svc fuel s = some w := by
  choose fuel hf using h
  -- Enough fuel for all tables at once; a turn leaves the tables after it alone.
  let most := Finset.univ.sup fuel
  have turns : ∀ l : List (TblIndex cfg), l.Nodup → ∀ w : Wakeup cfg,
      (∀ t ∈ l, w.state.dwellTables t = s.dwellTables t ∧ w.state.dwellPkt t = s.dwellPkt t) →
      ∃ v, l.foldlM (dwellTurn svc most) w = some v := by
    intro l
    induction l with
    | nil => exact fun _ w _ => ⟨w, rfl⟩
    | cons t l ih =>
      intro hl w hw
      rw [List.nodup_cons] at hl
      obtain ⟨p, hp⟩ := hf t
      have hp := dwellTable_mono (Finset.le_sup (Finset.mem_univ t)) hp
      obtain ⟨ht, hk⟩ := hw t List.mem_cons_self
      rw [← ht, ← hk] at hp
      rw [List.foldlM_cons, dwellTurn, show dwellTable svc most t _ = _ from hp]
      apply ih hl.2 _
      intro u hu
      have hut : u ≠ t := fun h => hl.1 (h ▸ hu)
      simpa [Function.update_of_ne hut] using hw u (List.mem_cons_of_mem t hu)
  obtain ⟨v, hv⟩ := turns (List.finRange _) (List.nodup_finRange _) ⟨s, .success, []⟩
    (fun _ _ => ⟨rfl, rfl⟩)
  exact ⟨most, v, hv⟩

end DwellPkts
