import MemoryDwell.ReadResults
import MemoryDwell.Replay
import MemoryDwell.StreamInit

/-! # Where the bytes of a packet come from

The data of a packet is a memory that the samples of its table write, and nobody else. A
packet that is sent holds at each place the byte that was read last for this place, in
whatever round that was, and a sample reads what its entry names. -/
namespace PacketProvenance

open DwellData DwellPkts DwellApp DwellRuns DwellStreams DwellTraces ReadResults
open TransitionRuns Replay

variable {cfg : Config}

/-- What an action leaves in byte `j` of the packet of table `t`. -/
def wroteByte (t : TblIndex cfg) (j : ℕ) : Action cfg → Option UInt8
  | .sample u _ offset numBytes (some bytes) =>
    if u = t ∧ offset ≤ j ∧ j < offset + numBytes then some (bytes (j - offset)) else none
  | _ => none

/-- Byte `j` of the packet is the one written last, and so it was in every packet sent. -/
structure Accounted (t : TblIndex cfg) (j : ℕ) (init : UInt8) (pkt : DwellPkt cfg)
    (acts : List (Action cfg)) : Prop where
  kept : pkt.data j = lastWrite (wroteByte t j) init acts
  sent : ∀ before out after, acts = before ++ .sendDwell t out :: after →
    out.data j = lastWrite (wroteByte t j) init before

/-- A sample of entry `e`: as many bytes as it says, from where it points, or none. -/
structure Honest (svc : Services cfg) (t : TblIndex cfg) (e : DwellControlEntry) (numBytes : ℕ)
    (data : Option (ℕ → UInt8)) : Prop where
  size : numBytes = e.length.toNat % 256
  read : ∃ r, data = if numBytes = 1 ∨ numBytes = 2 ∨ numBytes = 4 then
    svc.memRead t r e.resolvedAddress numBytes else none

/-- All samples of table `t` among the actions are honest. -/
def HonestSamples (svc : Services cfg) (t : TblIndex cfg) (entry : ℕ → DwellControlEntry)
    (acts : List (Action cfg)) : Prop :=
  ∀ i offset numBytes data, .sample t i offset numBytes data ∈ acts →
    Honest svc t (entry i) numBytes data

def actionLog (tr : List (State cfg × Label cfg)) : List (Action cfg) :=
  tr.flatMap fun q => q.2.actions

section Accounts

variable {t : TblIndex cfg} {j : ℕ} {init : UInt8} {pkt pkt' : DwellPkt cfg}
  {acts acts' : List (Action cfg)}

theorem accounted_nil (t : TblIndex cfg) (j : ℕ) (pkt : DwellPkt cfg) :
    Accounted t j (pkt.data j) pkt [] := by
  refine ⟨rfl, ?_⟩
  intro before out after h
  simp at h

theorem Accounted.append (h : Accounted t j init pkt acts)
    (h' : Accounted t j (pkt.data j) pkt' acts') : Accounted t j init pkt' (acts ++ acts') := by
  constructor
  · rw [lastWrite_append, ← h.kept]
    exact h'.kept
  · intro before out after hsplit
    rcases List.append_eq_append_iff.mp hsplit with ⟨mid, rfl, hacts⟩ | ⟨mid, hacts, hmid⟩
    · rw [lastWrite_append, ← h.kept]
      exact h'.sent mid out after hacts
    · cases mid with
      | nil =>
        rw [List.append_nil] at hacts
        rw [List.nil_append] at hmid
        rw [← hacts, ← h.kept]
        exact h'.sent [] out after hmid.symm
      | cons a mid =>
        obtain ⟨rfl, -⟩ := List.cons.inj hmid
        exact h.sent before out mid hacts

theorem Accounted.of_actionsOf (h : Accounted t j init pkt (actionsOf t acts)) :
    Accounted t j init pkt acts := by
  have other : ∀ a : Action cfg, decide (actionTable a = some t) = false →
      wroteByte t j a = none := by
    intro a ha
    have hne : actionTable a ≠ some t := of_decide_eq_false ha
    cases a with
    | sample u i offset numBytes data =>
      have hu : u ≠ t := fun hu => hne (congrArg some hu)
      cases data <;> simp [wroteByte, hu]
    | _ => rfl
  have reads : ∀ l : List (Action cfg),
      lastWrite (wroteByte t j) init (actionsOf t l) = lastWrite (wroteByte t j) init l :=
    lastWrite_filter other init
  constructor
  · rw [← reads]
    exact h.kept
  · rintro before out after rfl
    rw [← reads]
    apply h.sent (actionsOf t before) out (actionsOf t after)
    simp [actionsOf, actionTable]

end Accounts

section Pass

variable {svc : Services cfg} {t : TblIndex cfg} {j : ℕ}

theorem accounted_single {pkt pkt' : DwellPkt cfg} {a : Action cfg}
    (hk : pkt'.data j = (wroteByte t j a).getD (pkt.data j))
    (hs : ∀ out, a = .sendDwell t out → out.data j = pkt.data j) :
    Accounted t j (pkt.data j) pkt' [a] := by
  refine ⟨hk, ?_⟩
  intro before out after h
  rcases List.cons_eq_append_iff.mp h with ⟨rfl, h⟩ | ⟨mid, -, h⟩
  · exact hs out (List.cons.inj h).1
  · simp at h

theorem accounted_sample (t : TblIndex cfg) (hj : j < dataBytes cfg) (pkt : DwellPkt cfg)
    (i offset numBytes : ℕ) (data : Option (ℕ → UInt8)) :
    Accounted t j (pkt.data j) (storeData pkt offset numBytes data)
      [.sample t i offset numBytes data] := by
  apply accounted_single
  · cases data with
    | none => rfl
    | some bytes =>
      simp only [storeData, writeData, wroteByte, hj, and_true, true_and]
      split_ifs <;> rfl
  · simp

theorem accounted_send (t : TblIndex cfg) (j : ℕ) (pkt : DwellPkt cfg)
    (c : DwellPacketControl cfg) :
    Accounted t j (pkt.data j) (fillDwellPkt t c pkt) [.sendDwell t (fillDwellPkt t c pkt)] := by
  apply accounted_single rfl
  intro out h
  obtain ⟨-, rfl⟩ := Action.sendDwell.inj h
  rfl

theorem accounted_turn (hj : j < dataBytes cfg) (n : ℕ) {init : UInt8} {p : Pass cfg}
    (h : Accounted t j init p.pkt p.actions) :
    Accounted t j init (dwellStep svc t n p).pkt (dwellStep svc t n p).actions := by
  have hsample := accounted_sample t hj p.pkt p.control.currentEntry p.control.pktOffset
    ((p.control.entry p.control.currentEntry).length.toNat % 256)
    (fetched svc t p.control.currentEntry p)
  rw [dwellStep_actions, dwellStep_pkt]
  split_ifs
  · exact h.append (hsample.append (accounted_send t j _ p.control))
  · exact h.append hsample

theorem accounted_full (p : Pass cfg) (hp : p.actions = []) :
    Accounted t j (p.pkt.data j) (sendFullPkt t p).pkt (sendFullPkt t p).actions := by
  have hsend := accounted_send t j p.pkt p.control
  have hrestart : Accounted t j ((fillDwellPkt t p.control p.pkt).data j)
      (fillDwellPkt t p.control p.pkt) [.restart t ((p.control.addrCount : ℤ) - 1)] :=
    accounted_single rfl (by simp)
  have hboth := hsend.append hrestart
  simpa [sendFullPkt, sendDwellPkt, hp] using hboth

theorem accounted_pass (hj : j < dataBytes cfg) {c : DwellPacketControl cfg} {pkt : DwellPkt cfg}
    {fuel : ℕ} {q : Pass cfg} (h : dwellTable svc fuel t (.start c pkt) = some q) :
    Accounted t j (pkt.data j) q.pkt q.actions := by
  refine dwellTable_keeps (I := fun r : Pass cfg => Accounted t j (pkt.data j) r.pkt r.actions) h
    (accounted_nil t j pkt) ?_ ?_ ?_
  · exact fun _ => accounted_full (.start c pkt) rfl
  · exact fun _ => accounted_nil t j pkt
  · exact fun r hr _ => accounted_turn hj _ hr

theorem fetched_eq (svc : Services cfg) (t : TblIndex cfg) (i : ℕ) (p : Pass cfg) :
    let numBytes := (p.control.entry i).length.toNat % 256
    fetched svc t i p = if numBytes = 1 ∨ numBytes = 2 ∨ numBytes = 4 then
      svc.memRead t p.reads (p.control.entry i).resolvedAddress numBytes else none := by
  intro numBytes
  simp only [fetched, readStatus_success]
  change (if (numBytes = 1 ∨ numBytes = 2 ∨ numBytes = 4) ∧ _ then _ else _) = _
  cases hread : svc.memRead t p.reads (p.control.entry i).resolvedAddress numBytes with
  | none => simp [numBytes]
  | some bytes => simp [numBytes]

theorem honest_pass {c : DwellPacketControl cfg} {pkt : DwellPkt cfg} {fuel : ℕ} {q : Pass cfg}
    (h : dwellTable svc fuel t (.start c pkt) = some q) :
    HonestSamples svc t c.entry q.actions := by
  refine (dwellTable_keeps (I := fun r : Pass cfg => r.control.entry = c.entry ∧
    HonestSamples svc t c.entry r.actions) h ?_ ?_ ?_ ?_).2
  · exact ⟨rfl, by simp [HonestSamples]⟩
  · exact fun _ => ⟨rfl, by simp [HonestSamples, sendFullPkt, sendDwellPkt]⟩
  · exact fun _ => ⟨rfl, by simp [HonestSamples, decrement]⟩
  · rintro r ⟨he, hr⟩ -
    refine ⟨?_, ?_⟩
    · rw [dwellStep_control, (advance_contents _ _).entry, he]
    · intro i offset numBytes data hmem
      rw [dwellStep_actions, List.mem_append] at hmem
      rcases hmem with hmem | hmem
      · exact hr i offset numBytes data hmem
      · rcases List.mem_cons.mp hmem with hmem | hmem
        · obtain ⟨-, rfl, -, rfl, rfl⟩ := Action.sample.inj hmem
          rw [← he]
          exact ⟨rfl, r.reads, fetched_eq svc t r.control.currentEntry r⟩
        · split_ifs at hmem <;> simp at hmem

end Pass

theorem stream_accounted {svc : Services cfg} {t : TblIndex cfg} {x y : Stream cfg}
    {acts : List (Action cfg)} {op : StreamOp cfg} (h : StreamStep svc t x acts y op) {j : ℕ}
    (hj : j < dataBytes cfg) : Accounted t j (x.pkt.data j) y.pkt acts := by
  cases op with
  | pass =>
    obtain ⟨fuel, q, hq, rfl, rfl⟩ := h
    exact accounted_pass hj hq
  | load tbl copied =>
    obtain ⟨rfl, rfl, -⟩ := h
    exact accounted_nil t j x.pkt
  | jam e new load granted =>
    obtain ⟨rfl, rfl⟩ := h
    cases granted <;> exact accounted_nil t j x.pkt
  | _ =>
    obtain ⟨rfl, rfl⟩ := h
    exact accounted_nil t j _

theorem step_accounted {s s' : State cfg} {l : Label cfg} (st : Step s l s') (t : TblIndex cfg)
    {j : ℕ} (hj : j < dataBytes cfg) :
    Accounted t j ((s.dwellPkt t).data j) (s'.dwellPkt t) l.actions :=
  (stream_accounted (step_move st t).step hj).of_actionsOf

theorem step_honest {s s' : State cfg} {l : Label cfg} (st : AnyStep s l s') (t : TblIndex cfg) :
    HonestSamples l.services t (s.dwellTables t).entry l.actions := by
  intro i offset numBytes data hmem
  have hown : .sample t i offset numBytes data ∈ actionsOf t l.actions :=
    List.mem_filter.mpr ⟨hmem, by simp [actionTable]⟩
  obtain ⟨fuel, q, hq, hin⟩ := (anyStep_move st t).pass_of_action hown
  exact honest_pass hq i offset numBytes data hin

theorem run_accounted {s s' : State cfg} {tr : List (State cfg × Label cfg)}
    (run : Run Step s tr s') (t : TblIndex cfg) {j : ℕ} (hj : j < dataBytes cfg) :
    Accounted t j ((s.dwellPkt t).data j) (s'.dwellPkt t) (actionLog tr) := by
  induction run with
  | nil => exact accounted_nil t j _
  | @snoc u v tr l run st ih =>
    have hlog : actionLog (tr ++ [(u, l)]) = actionLog tr ++ l.actions := by simp [actionLog]
    rw [hlog]
    exact ih.append (step_accounted st t hj)

/-- In a run of steps that stay inside the packets, every byte of every packet sent is the
last one that a sample of its table put there, and every sample read as many bytes as its
entry then said, from where the entry then pointed. -/
theorem packets_tell_reads {s s' : State cfg} {tr : List (State cfg × Label cfg)}
    (run : Run Step s tr s') (t : TblIndex cfg) {j : ℕ} (hj : j < dataBytes cfg) :
    Accounted t j ((s.dwellPkt t).data j) (s'.dwellPkt t) (actionLog tr) ∧
      EveryStep (fun u l => HonestSamples l.services t (u.dwellTables t).entry l.actions) tr := by
  refine ⟨run_accounted run t hj, fun q hq => ?_⟩
  obtain ⟨v, st⟩ := run.steps q hq
  exact step_honest st.any t

/-- A table that is jammed in the middle of a round: in the round after it, byte 1 is read
for another entry. -/
theorem packets_tell_reads_jammed :
    let config := threeEntries
    let tbl := loadTable config dwellEnabled [loadEntry config 2 1 8, loadEntry config 2 1 16]
    let svc := smallServices config .success
    let ks := [(svc, wakeupMsg config), (svc, jamMsg config 1 1 1 0 40), (svc, wakeupMsg config),
      (svc, wakeupMsg config)]
    ∃ s tr s', Started flatMemory.resolver (recoverAll tbl) s ∧ Run Step s tr s' ∧
      tr.map (fun q => Label.call q.2) = ks ∧ (s'.dwellPkt 0).data 1 = 16 ∧
      Accounted 0 1 ((s.dwellPkt 0).data 1) (s'.dwellPkt 0) (actionLog tr) ∧
      EveryStep (fun u l => HonestSamples l.services 0 (u.dwellTables 0).entry l.actions) tr := by
  intro config tbl svc ks
  obtain ⟨s, tr, s', hs, run, hks, hbyte⟩ := flight_run flatMemory.resolver (recoverAll tbl) 9
    (blankState config) ks (fun _ _ s' => decide ((s'.dwellPkt 0).data 1 = 16)) (by decide +kernel)
  exact ⟨s, tr, s', hs, run, hks, of_decide_eq_true hbyte, packets_tell_reads run 0 (by decide)⟩

end PacketProvenance
