import MemoryDwell.ReadResults
import MemoryDwell.StreamIsolation

/-! # Memory does not steer

The bytes that a wakeup reads go into the data of the packets and nowhere else. What memory
holds, and which of the reads fail, makes no difference to the tables, to the schedule or to
the headers of the packets. -/
namespace MemoryIndependence

open DwellData DwellPkts DwellRuns DwellStreams StreamIsolation DwellTraces ReadResults
open FueledLoop TransitionRuns Noninterference

variable {cfg : Config}

def blankPkt (pkt : DwellPkt cfg) : DwellPkt cfg := { pkt with data := fun _ => 0 }

/-- The action without what was read. -/
def blankAction : Action cfg → Action cfg
  | .sample t entry offset numBytes _ => .sample t entry offset numBytes none
  | .sendDwell t pkt => .sendDwell t (blankPkt pkt)
  | a => a

def blankPass (p : Pass cfg) : Pass cfg :=
  { p with
    pkt := blankPkt p.pkt
    status := .success
    actions := p.actions.map blankAction
    events := [] }

/-- The event without the answers of memory. -/
def blankEvent : TableEvent cfg → TableEvent cfg
  | .wakeup _ => .wakeup fun _ _ _ => none
  | e => e

/-- The observer of a table that does not see what memory holds. -/
def blindObserver (t : TblIndex cfg) :
    Observer (State cfg) (Label cfg) (Stream cfg) (TableEvent cfg) (Action cfg) where
  view s := ⟨s.dwellTables t, blankPkt (s.dwellPkt t), s.tblBuffer t⟩
  event l := (eventOf t l.services l.input).map blankEvent
  output l := (actionsOf t l.actions).map blankAction

@[simp] theorem blankPkt_storeData (pkt : DwellPkt cfg) (offset numBytes : ℕ)
    (data : Option (ℕ → UInt8)) : blankPkt (storeData pkt offset numBytes data) = blankPkt pkt := by
  cases data <;> rfl

@[simp] theorem blankPkt_fill (t : TblIndex cfg) (c : DwellPacketControl cfg)
    (pkt : DwellPkt cfg) : blankPkt (fillDwellPkt t c pkt) = fillDwellPkt t c (blankPkt pkt) := rfl

@[simp] theorem blankAction_blank (a : Action cfg) :
    blankAction (blankAction a) = blankAction a := by
  cases a <;> rfl

section Pass

variable (svc svc' : Services cfg) (t : TblIndex cfg) (n : ℕ) (p : Pass cfg)

theorem blankPass_ext {p q : Pass cfg} (hc : p.control = q.control)
    (hp : blankPkt p.pkt = blankPkt q.pkt) (hr : p.reads = q.reads)
    (ha : p.actions.map blankAction = q.actions.map blankAction) : blankPass p = blankPass q := by
  simp only [blankPass, hc, hp, hr, ha]

theorem actions_blank :
    (blankPass p).actions.map blankAction = p.actions.map blankAction := by
  simp [blankPass]

theorem dwellStep_blankPkt :
    blankPkt (dwellStep svc t n p).pkt =
      if p.control.currentEntry + 1 = n then fillDwellPkt t p.control (blankPkt p.pkt)
      else blankPkt p.pkt := by
  rw [dwellStep_pkt]
  split_ifs <;> simp

theorem dwellStep_blank :
    blankPass (dwellStep svc' t n (blankPass p)) = blankPass (dwellStep svc t n p) := by
  have hpkt : blankPkt (dwellStep svc' t n (blankPass p)).pkt =
      blankPkt (dwellStep svc t n p).pkt := by
    rw [dwellStep_blankPkt, dwellStep_blankPkt]
    rfl
  apply blankPass_ext
  · rw [dwellStep_control, dwellStep_control]
    rfl
  · exact hpkt
  · rw [dwellStep_reads, dwellStep_reads]
    rfl
  · have hold := actions_blank p
    have hcur : (blankPass p).control = p.control := rfl
    rw [dwellStep_actions, dwellStep_actions, hcur]
    split_ifs
    · simp [hold, blankAction, hpkt]
    · simp [hold, blankAction]

/-- Whatever memory a loop reads from, what is left of it is one loop that blanks after
every turn. -/
theorem loop_blank (fuel : ℕ) :
    (whileLoop dwellDue (dwellStep svc t n) fuel p).map blankPass =
      whileLoop dwellDue (fun r => blankPass (dwellStep svc' t n r)) fuel (blankPass p) := by
  symm
  apply while_commute (I := fun _ => True) (fun _ _ _ => trivial) (fun _ _ => rfl)
  · exact fun r _ _ => dwellStep_blank svc svc' t n r
  · trivial

theorem blankPass_blank : blankPass (blankPass p) = blankPass p := by
  apply blankPass_ext
  · rfl
  · rfl
  · rfl
  · exact actions_blank p

theorem sendFullPkt_blank : blankPass (sendFullPkt t (blankPass p)) =
    blankPass (sendFullPkt t p) := by
  apply blankPass_ext
  · rfl
  · rfl
  · rfl
  · simp only [sendFullPkt, sendDwellPkt, List.map_append, actions_blank]
    rfl

theorem decrement_blank : blankPass (decrement (blankPass p)) = blankPass (decrement p) := by
  apply blankPass_ext
  · rfl
  · rfl
  · rfl
  · exact actions_blank p

theorem dwellTable_blank (fuel : ℕ) :
    (dwellTable svc' fuel t (blankPass p)).map blankPass =
      (dwellTable svc fuel t p).map blankPass := by
  by_cases ha : p.control.enabled = dwellEnabled ∧ 0 < p.control.rate
  · by_cases hf : p.control.addrCount ≤ p.control.currentEntry
    · have hfull := dwellTable_full (p := blankPass p) svc' fuel t ha hf
      rw [hfull, dwellTable_full svc fuel t ha hf, Option.map_some, Option.map_some,
        sendFullPkt_blank]
    · have hlt := Nat.lt_of_not_le hf
      have hloop : dwellTable svc' fuel t (blankPass p) =
          whileLoop dwellDue (dwellStep svc' t p.control.addrCount) fuel
            (decrement (blankPass p)) :=
        dwellTable_loop (p := blankPass p) svc' fuel t ha hlt
      rw [hloop, dwellTable_loop svc fuel t ha hlt, loop_blank svc' svc', loop_blank svc svc',
        decrement_blank]
  · have hoff := dwellTable_off (p := blankPass p) svc' fuel t ha
    rw [hoff, dwellTable_off svc fuel t ha, Option.map_some, Option.map_some, blankPass_blank]

end Pass

theorem pass_blank {svc svc' : Services cfg} {t : TblIndex cfg} {c : DwellPacketControl cfg}
    {pkt pkt' : DwellPkt cfg} {fuel fuel' : ℕ} {p p' : Pass cfg}
    (hpkt : blankPkt pkt = blankPkt pkt') (h : dwellTable svc fuel t (.start c pkt) = some p)
    (h' : dwellTable svc' fuel' t (.start c pkt') = some p') : blankPass p = blankPass p' := by
  have hstart : blankPass (.start c pkt) = blankPass (.start c pkt') := by
    simp [blankPass, Pass.start, hpkt]
  have hmax := dwellTable_blank svc svc t (.start c pkt) (max fuel fuel')
  have hmax' := dwellTable_blank svc' svc t (.start c pkt') (max fuel fuel')
  rw [dwellTable_mono (Nat.le_max_left fuel fuel') h] at hmax
  rw [dwellTable_mono (Nat.le_max_right fuel fuel') h', ← hstart, hmax] at hmax'
  exact Option.some.inj hmax'

def blankStream (x : Stream cfg) : Stream cfg := { x with pkt := blankPkt x.pkt }

theorem step_blank {svc svc' : Services cfg} {t : TblIndex cfg} {x y x' y' : Stream cfg}
    {as as' : List (Action cfg)} {op : StreamOp cfg} (h : StreamStep svc t x as x' op)
    (h' : StreamStep svc' t y as' y' op) (hxy : blankStream x = blankStream y)
    (hr : ∀ tbl copied, op = .load tbl copied → svc.toResolver = svc'.toResolver) :
    blankStream x' = blankStream y' ∧ as.map blankAction = as'.map blankAction := by
  obtain ⟨c, pkt, b⟩ := x
  obtain ⟨d, pkt', b'⟩ := y
  obtain ⟨rfl, hp, rfl⟩ := Stream.mk.inj hxy
  cases op with
  | pass =>
    obtain ⟨fuel, p, hpass, rfl, rfl⟩ := h
    obtain ⟨fuel', p', hpass', rfl, rfl⟩ := h'
    obtain ⟨hcontrol, hpkt, -, -, hacts, -⟩ := Pass.mk.inj (pass_blank hp hpass hpass')
    exact ⟨by simp only [blankStream, hcontrol, hpkt], hacts⟩
  | load tbl copied =>
    obtain ⟨rfl, rfl, -⟩ := h
    obtain ⟨rfl, rfl, -⟩ := h'
    simp [blankStream, install, hr tbl copied rfl, hp]
  | jam e new load granted =>
    obtain ⟨rfl, rfl⟩ := h
    obtain ⟨rfl, rfl⟩ := h'
    cases granted <;> simp [blankStream, jamEntry, hp]
  | _ =>
    obtain ⟨rfl, rfl⟩ := h
    obtain ⟨rfl, rfl⟩ := h'
    simp [blankStream, setEnabled, setSignature, hp]

/-- Events that differ in the answers of memory settle the operation alike. -/
theorem blankEvent_op {s s' r r' : State cfg} {l l' : Label cfg} {t : TblIndex cfg}
    {e e' : TableEvent cfg} (st : Step s l r) (st' : Step s' l' r')
    (he : eventOf t l.services l.input = some e) (he' : eventOf t l'.services l'.input = some e')
    (hsame : blankEvent e = blankEvent e') :
    opOf l t = opOf l' t ∧ ∀ tbl copied, opOf l t = .load tbl copied →
      l.services.toResolver = l'.services.toResolver := by
  by_cases hw : ∃ memRead, e = .wakeup memRead
  · obtain ⟨memRead, rfl⟩ := hw
    obtain ⟨memRead', rfl⟩ : ∃ memRead', e' = .wakeup memRead' := by
      cases e' with
      | wakeup memRead' => exact ⟨memRead', rfl⟩
      | _ => cases hsame
    obtain ⟨-, hop⟩ := event_follows he
    obtain ⟨-, hop'⟩ := event_follows he'
    rw [hop, hop']
    simp
  · have heq : e = e' := by
      cases e with
      | wakeup memRead => exact absurd ⟨memRead, rfl⟩ hw
      | _ =>
        cases e' with
        | wakeup memRead' => cases hsame
        | _ => exact hsame
    subst heq
    obtain ⟨hop, -, hr⟩ := event_op st st' he he'
    exact ⟨hop, hr⟩

theorem blindObserver_isolated (t : TblIndex cfg) :
    Isolated (@Step cfg) (blindObserver t) := by
  constructor
  · intro s l s' st h
    have hnone : eventOf t l.services l.input = none := Option.map_eq_none_iff.mp h
    obtain ⟨hview, hout⟩ := (tableObserver_isolated t).silent st hnone
    refine ⟨congrArg blankStream hview, ?_⟩
    have hacts : actionsOf t l.actions = [] := hout
    simp only [blindObserver, hacts, List.map_nil]
  · intro s l r s' l' r' b st st' hv hb hb'
    obtain ⟨e, he, rfl⟩ := Option.map_eq_some_iff.mp hb
    obtain ⟨e', he', hsame⟩ := Option.map_eq_some_iff.mp hb'
    obtain ⟨hop, hr⟩ := blankEvent_op st st' he he' hsame.symm
    have hs := (step_move st t).step
    have hs' := (step_move st' t).step
    rw [← hop] at hs'
    exact step_blank hs hs' hv hr

theorem blind_events (t : TblIndex cfg) (tr : List (State cfg × Label cfg)) :
    (blindObserver t).events tr = ((tableObserver t).events tr).map blankEvent :=
  List.map_filterMap.symm

/-- Two runs in which the same happens to a table except for what memory answers: event by
event, in each wakeup on its own, and in the end, its control structure and its buffer, the
samples taken and their places, the packets sent and their headers are the same. -/
theorem memory_never_steers {s s' u u' : State cfg} {tr tr' : List (State cfg × Label cfg)}
    {t : TblIndex cfg} (run : Run Step s tr u) (run' : Run Step s' tr' u')
    (hs : blankStream (stream s t) = blankStream (stream s' t))
    (same : (blindObserver t).events tr = (blindObserver t).events tr') :
    blankStream (stream u t) = blankStream (stream u' t) ∧
      (blindObserver t).outputs tr = (blindObserver t).outputs tr' ∧
      (blindObserver t).history tr = (blindObserver t).history tr' := by
  have hsame := isolated_runs (blindObserver_isolated t) run run' hs same
  exact ⟨hsame.view, hsame.outputs, hsame.history⟩

def deafServices (cfg : Config) : Services cfg :=
  { smallServices cfg .success with memRead := fun _ _ _ _ => none }

theorem memory_never_steers_deaf :
    let config := threeEntries
    let tbl := loadTable config dwellEnabled [loadEntry config 4 0 8, loadEntry config 2 1 16]
    let ks (svc : Services config) :=
      [(svc, wakeupMsg config), (svc, jamMsg config 1 2 1 2 40), (svc, wakeupMsg config)]
    ∃ s tr u tr' u', Started flatMemory.resolver (recoverAll tbl) s ∧ Run Step s tr u ∧
      Run Step s tr' u' ∧
      tr.map (fun q => Label.call q.2) = ks (smallServices config .success) ∧
      tr'.map (fun q => Label.call q.2) = ks (deafServices config) ∧
      (u.dwellPkt 0).data 0 ≠ (u'.dwellPkt 0).data 0 ∧
      blankStream (stream u 0) = blankStream (stream u' 0) ∧
      (blindObserver 0).outputs tr = (blindObserver 0).outputs tr' ∧
      (blindObserver 0).history tr = (blindObserver 0).history tr' := by
  intro config tbl ks
  obtain ⟨s, tr, u, hs, run, hks, hread⟩ := flight_from flatMemory.resolver (recoverAll tbl) 9
    (blankState config) (ks (smallServices config .success))
    (fun _ _ u => decide ((u.dwellPkt 0).data 0 = 8)) (by decide +kernel)
  obtain ⟨s', tr', u', hs', run', hks', hdeaf⟩ := flight_from flatMemory.resolver
    (recoverAll tbl) 9 (blankState config) (ks (deafServices config))
    (fun _ _ u => decide ((u.dwellPkt 0).data 0 = 0)) (by decide +kernel)
  obtain rfl := Option.some.inj (hs.symm.trans hs')
  have same : (blindObserver 0).events tr = (blindObserver 0).events tr' := by
    rw [blind_events, blind_events, events_of_calls hks, events_of_calls hks']
    rfl
  have differ : (u.dwellPkt 0).data 0 ≠ (u'.dwellPkt 0).data 0 := by
    rw [of_decide_eq_true hread, of_decide_eq_true hdeaf]
    decide
  exact ⟨s, tr, u, tr', u', start_started hs, run, run', hks, hks', differ,
    memory_never_steers run run' rfl same⟩

end MemoryIndependence
