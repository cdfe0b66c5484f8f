import MemoryDwell.DwellTraces
import MemoryDwell.Noninterference

/-! # Streams do not interfere

What happens to a table and what it sends is settled by the wakeups, by the commands and
updates that name it and by the answers it gets, whatever happens to other tables. -/
namespace StreamIsolation

open DwellData DwellUtils DwellTbl DwellPkts DwellCmds DwellApp DwellDispatch DwellRuns
open DwellStreams DwellTraces FueledLoop TransitionRuns Noninterference

variable {cfg : Config}

/-- What reaches one table, with the answers of the outside that concern it. -/
inductive TableEvent (cfg : Config) where
  | wakeup (memRead : ℕ → ℕ → ℕ → Option (ℕ → UInt8))
  | start (access : CFEStatus)
  | stop (access : CFEStatus)
  | jam (payload : CmdJamPayload cfg) (resolver : Resolver) (access : CFEStatus)
      (messageStringGet : CharField cfg.maxPathLen → CharField cfg.maxPathLen)
  | setSignature (payload : CmdSetSignaturePayload cfg) (access : CFEStatus)
  | manage (calls : ManageCalls cfg ℕ) (resolver : Resolver)

/-- Of a mask only the bit of the table is part of the event. -/
def commandEvent (svc : Services cfg) (msg : Message cfg) (t : TblIndex cfg) :
    Option (TableEvent cfg) :=
  if wellFormed msg then
    if msg.fcnCode = startDwellCC then
      if tableIsInMask (t + 1) msg.startStop.tableMask then some (.start (svc.getAddress t))
      else none
    else if msg.fcnCode = stopDwellCC then
      if tableIsInMask (t + 1) msg.startStop.tableMask then some (.stop (svc.getAddress t))
      else none
    else if msg.fcnCode = jamDwellCC then
      if tableIndex cfg msg.jam.tableId = some t then
        some (.jam msg.jam svc.toResolver (svc.getAddress t) svc.messageStringGet)
      else none
    else if msg.fcnCode = setSignatureCC then
      if tableIndex cfg msg.setSignature.tableId = some t then
        some (.setSignature msg.setSignature (svc.getAddress t))
      else none
    else none
  else none

def eventOf (t : TblIndex cfg) (svc : Services cfg) : Input cfg → Option (TableEvent cfg)
  | .manage u calls => if u = t then some (.manage calls svc.toResolver) else none
  | .message none => none
  | .message (some msg) =>
    match msg.msgId with
    | .wakeup => if msg.size = bareMsgLength cfg then some (.wakeup (svc.memRead t)) else none
    | .cmd => commandEvent svc msg t
    | .sendHk | .other _ => none

/-- A table as the observer of the application. -/
def tableObserver (t : TblIndex cfg) :
    Observer (State cfg) (Label cfg) (Stream cfg) (TableEvent cfg) (Action cfg) where
  view s := stream s t
  event l := eventOf t l.services l.input
  output l := actionsOf t l.actions

theorem commandEvent_none {svc : Services cfg} {msg : Message cfg} {t : TblIndex cfg}
    (h : commandEvent svc msg t = none) : cmdOp svc msg t = .idle := by
  rw [commandEvent] at h
  unfold cmdOp jamOp signOp
  split_ifs at h ⊢ <;> first | rfl | tauto

theorem eventOf_none {s s' : State cfg} {l : Label cfg} {t : TblIndex cfg} (st : Step s l s')
    (h : eventOf t l.services l.input = none) : opOf l t = .idle := by
  obtain ⟨⟨fuel, he⟩, -⟩ := st
  obtain ⟨svc, input, actions⟩ := l
  cases input with
  | manage u calls =>
    have hut : u ≠ t := by
      rintro rfl
      simp [eventOf] at h
    cases hop : opOf ⟨svc, .manage u calls, actions⟩ t with
    | load tbl copied =>
      obtain ⟨calls', hi, -⟩ := exec_load he hop
      cases hi
      exact absurd rfl hut
    | idle => rfl
    | _ =>
      simp only [opOf, installOp] at hop
      split at hop
      · split_ifs at hop
      · cases hop
  | message bufPtr =>
    cases bufPtr with
    | none => rfl
    | some msg =>
      simp only [eventOf] at h
      simp only [opOf]
      cases hid : msg.msgId with
      | wakeup =>
        simp only [hid] at h
        split_ifs at h with hl
        simp only [hl, if_false]
      | cmd =>
        simp only [hid] at h
        exact commandEvent_none h
      | sendHk => rfl
      | other v => rfl

section Answers

variable {svc svc' : Services cfg} {t : TblIndex cfg}

theorem dwellStep_congr (h : svc.memRead t = svc'.memRead t) (n : ℕ) (p : Pass cfg) :
    dwellStep svc t n p = dwellStep svc' t n p := by
  simp only [dwellStep, getDwellData, fetched, h]

theorem dwellTable_congr (h : svc.memRead t = svc'.memRead t) (fuel : ℕ) (p : Pass cfg) :
    dwellTable svc fuel t p = dwellTable svc' fuel t p := by
  simp only [dwellTable, funext (dwellStep_congr h p.control.addrCount)]

theorem dwellTable_deterministic (h : svc.memRead t = svc'.memRead t) {a b : ℕ} {p q q' : Pass cfg}
    (hq : dwellTable svc a t p = some q) (hq' : dwellTable svc' b t p = some q') : q = q' := by
  rw [dwellTable_congr h] at hq
  have hmax := dwellTable_mono (Nat.le_max_left a b) hq
  have hmax' := dwellTable_mono (Nat.le_max_right a b) hq'
  exact Option.some.inj (hmax.symm.trans hmax')

theorem granted_congr (ha : svc.getAddress t = svc'.getAddress t) :
    decide (Granted svc t) = decide (Granted svc' t) :=
  decide_eq_decide.mpr (by rw [Granted, Granted, ha])

theorem jamOp_congr {p : CmdJamPayload cfg} (hr : svc.toResolver = svc'.toResolver)
    (ha : svc.getAddress t = svc'.getAddress t)
    (hm : svc.messageStringGet = svc'.messageStringGet) : jamOp svc p t = jamOp svc' p t := by
  have hchecks : jamChecks svc p = jamChecks svc' p := by
    simp only [jamChecks, hr]
  simp only [jamOp, jamWrite, hchecks, hm, granted_congr ha]

theorem signOp_congr {p : CmdSetSignaturePayload cfg} (ha : svc.getAddress t = svc'.getAddress t) :
    signOp svc p t = signOp svc' p t := by
  simp only [signOp, granted_congr ha]

end Answers

theorem manageLoop_actions {W : Type} {r r' : Resolver} {calls : ManageCalls cfg W}
    {copyFuel copyFuel' : ℕ} {t : TblIndex cfg} {s s' : State cfg} {fuel fuel' : ℕ} {w : W}
    {m m' : Managed cfg W} (h : manageLoop r calls copyFuel t s fuel w = some m)
    (h' : manageLoop r' calls copyFuel' t s' fuel' w = some m') : m.actions = m'.actions := by
  induction fuel generalizing fuel' w with
  | zero => cases h
  | succ fuel ih =>
    cases fuel' with
    | zero => cases h'
    | succ fuel' =>
      simp only [manageLoop] at h h'
      split_ifs at h h' with hp hv hu he
      · cases h
        cases h'
        rfl
      · exact ih h h'
      · simp only [updateFromLoad] at h h'
        split_ifs at h h' with hs hg
        · rw [Option.map_eq_some_iff] at h h'
          obtain ⟨-, -, rfl⟩ := h
          obtain ⟨-, -, rfl⟩ := h'
          rfl
        · cases h
          cases h'
          rfl
        · cases h
          cases h'
          rfl
      · cases h
        cases h'
        rfl
      · cases h
        cases h'
        rfl

/-- An operation that neither samples nor copies asks nothing of the outside. -/
def Plain (op : StreamOp cfg) : Prop := op ≠ .pass ∧ ∀ tbl copied, op ≠ .load tbl copied

theorem plain_jamOp (svc : Services cfg) (p : CmdJamPayload cfg) (t : TblIndex cfg) :
    Plain (jamOp svc p t) := by
  rw [jamOp]
  split_ifs
  · split <;> simp [Plain]
  · simp [Plain]

theorem plain_signOp (svc : Services cfg) (p : CmdSetSignaturePayload cfg) (t : TblIndex cfg) :
    Plain (signOp svc p t) := by
  rw [signOp]
  split_ifs <;> simp [Plain]

section Outcomes

variable {svc svc' : Services cfg} {t : TblIndex cfg} {x y y' : Stream cfg}
  {as as' : List (Action cfg)} {op : StreamOp cfg}

theorem plain_deterministic (hp : Plain op) (h : StreamStep svc t x as y op)
    (h' : StreamStep svc' t x as' y' op) : y = y' ∧ as = as' := by
  cases op with
  | load tbl copied => exact absurd rfl (hp.2 tbl copied)
  | pass => exact absurd rfl hp.1
  | _ =>
    obtain ⟨rfl, rfl⟩ := h
    obtain ⟨rfl, rfl⟩ := h'
    exact ⟨rfl, rfl⟩

theorem pass_deterministic (hm : svc.memRead t = svc'.memRead t)
    (h : StreamStep svc t x as y .pass) (h' : StreamStep svc' t x as' y' .pass) :
    y = y' ∧ as = as' := by
  obtain ⟨fuel, p, hp, rfl, rfl⟩ := h
  obtain ⟨fuel', p', hp', rfl, rfl⟩ := h'
  rw [dwellTable_deterministic hm hp hp']
  exact ⟨rfl, rfl⟩

theorem install_deterministic (hr : svc.toResolver = svc'.toResolver) {acts : List (Action cfg)}
    (h : StreamStep svc t x as y (installOp t acts))
    (h' : StreamStep svc' t x as' y' (installOp t acts)) : y = y' ∧ as = as' := by
  have hcases : Plain (installOp t acts) ∨ ∃ tbl copied, installOp t acts = .load tbl copied := by
    unfold installOp
    split
    · split_ifs
      · exact Or.inr ⟨_, _, rfl⟩
      · exact Or.inl (by simp [Plain])
    · exact Or.inl (by simp [Plain])
  rcases hcases with hp | ⟨tbl, copied, hop⟩
  · exact plain_deterministic hp h h'
  · rw [hop] at h h'
    obtain ⟨rfl, rfl, -⟩ := h
    obtain ⟨rfl, rfl, -⟩ := h'
    rw [hr]
    exact ⟨rfl, rfl⟩

end Outcomes

/-- What a step with an event of a table does to its stream, as far as the event tells. -/
def Follows (l : Label cfg) (t : TblIndex cfg) : TableEvent cfg → Prop
  | .wakeup memRead => l.services.memRead t = memRead ∧ opOf l t = .pass
  | .start access =>
    l.services.getAddress t = access ∧ opOf l t = .start (Granted l.services t)
  | .stop access => l.services.getAddress t = access ∧ opOf l t = .stop (Granted l.services t)
  | .jam p resolver access messageStringGet =>
    l.services.toResolver = resolver ∧ l.services.getAddress t = access ∧
      l.services.messageStringGet = messageStringGet ∧ opOf l t = jamOp l.services p t
  | .setSignature p access =>
    l.services.getAddress t = access ∧ opOf l t = signOp l.services p t
  | .manage calls resolver => l.services.toResolver = resolver ∧ l.input = .manage t calls

theorem event_follows {l : Label cfg} {t : TblIndex cfg} {e : TableEvent cfg}
    (h : eventOf t l.services l.input = some e) : Follows l t e := by
  obtain ⟨svc, input, actions⟩ := l
  cases input with
  | manage u calls =>
    simp only [eventOf] at h
    split_ifs at h with hut
    cases h
    exact ⟨rfl, by rw [hut]⟩
  | message bufPtr =>
    cases bufPtr with
    | none => cases h
    | some msg =>
      simp only [eventOf] at h
      cases hid : msg.msgId with
      | wakeup =>
        simp only [hid] at h
        split_ifs at h with hl
        cases h
        exact ⟨rfl, by simp only [opOf, hid, if_pos hl]⟩
      | cmd =>
        have hop : opOf ⟨svc, .message (some msg), actions⟩ t = cmdOp svc msg t := by
          simp only [opOf, hid]
        simp only [hid, commandEvent] at h
        split_ifs at h with hw h2 hm2 h3 hm3 h4 ht4 h5 ht5
        · cases h
          exact ⟨rfl, by rw [hop, cmdOp, if_pos hw, if_pos h2, if_pos hm2]⟩
        · cases h
          exact ⟨rfl, by rw [hop, cmdOp, if_pos hw, if_neg h2, if_pos h3, if_pos hm3]⟩
        · cases h
          exact ⟨rfl, rfl, rfl, by rw [hop, cmdOp, if_pos hw, if_neg h2, if_neg h3, if_pos h4]⟩
        · cases h
          exact ⟨rfl, by rw [hop, cmdOp, if_pos hw, if_neg h2, if_neg h3, if_neg h4, if_pos h5]⟩
      | sendHk =>
        simp only [hid] at h
        cases h
      | other v =>
        simp only [hid] at h
        cases h

theorem step_manage_actions {s s' r r' : State cfg} {l l' : Label cfg} {t : TblIndex cfg}
    {calls : ManageCalls cfg ℕ} (st : Step s l r) (st' : Step s' l' r')
    (hi : l.input = .manage t calls) (hi' : l'.input = .manage t calls) :
    l.actions = l'.actions := by
  have fromCall : ∀ {s r : State cfg} {l : Label cfg}, Step s l r → l.input = .manage t calls →
      ∃ fuel m, manageDwellTable l.services.toResolver calls fuel t 0 s = some m ∧
        l.actions = m.actions := by
    rintro s r ⟨svc, input, actions⟩ ⟨⟨fuel, he⟩, -⟩ rfl
    simp only [exec, Option.map_eq_some_iff, Prod.mk.injEq, Label.mk.injEq, true_and] at he
    obtain ⟨m, hm, rfl, -⟩ := he
    exact ⟨fuel, m, hm, rfl⟩
  obtain ⟨fuel, m, hm, hacts⟩ := fromCall st hi
  obtain ⟨fuel', m', hm', hacts'⟩ := fromCall st' hi'
  rw [hacts, hacts', manageLoop_actions hm hm']

theorem event_determined {s s' r r' : State cfg} {l l' : Label cfg} {t : TblIndex cfg}
    {e : TableEvent cfg} (st : Step s l r) (st' : Step s' l' r') (hv : stream s t = stream s' t)
    (he : eventOf t l.services l.input = some e) (he' : eventOf t l'.services l'.input = some e) :
    stream r t = stream r' t ∧ actionsOf t l.actions = actionsOf t l'.actions := by
  have hs := (step_move st t).step
  have hs' := (step_move st' t).step
  have hf := event_follows he
  have hf' := event_follows he'
  rw [← hv] at hs'
  cases e with
  | wakeup memRead =>
    rw [hf.2] at hs
    rw [hf'.2] at hs'
    exact pass_deterministic (hf.1.trans hf'.1.symm) hs hs'
  | start access =>
    rw [hf.2] at hs
    rw [hf'.2, ← granted_congr (hf.1.trans hf'.1.symm)] at hs'
    exact plain_deterministic (by simp [Plain]) hs hs'
  | stop access =>
    rw [hf.2] at hs
    rw [hf'.2, ← granted_congr (hf.1.trans hf'.1.symm)] at hs'
    exact plain_deterministic (by simp [Plain]) hs hs'
  | jam p resolver access messageStringGet =>
    obtain ⟨hr, ha, hm, hop⟩ := hf
    obtain ⟨hr', ha', hm', hop'⟩ := hf'
    rw [hop] at hs
    rw [hop', ← jamOp_congr (hr.trans hr'.symm) (ha.trans ha'.symm) (hm.trans hm'.symm)] at hs'
    exact plain_deterministic (plain_jamOp _ p t) hs hs'
  | setSignature p access =>
    rw [hf.2] at hs
    rw [hf'.2, ← signOp_congr (hf.1.trans hf'.1.symm)] at hs'
    exact plain_deterministic (plain_signOp _ p t) hs hs'
  | manage calls resolver =>
    obtain ⟨hr, hi⟩ := hf
    obtain ⟨hr', hi'⟩ := hf'
    have hacts := step_manage_actions st st' hi hi'
    rw [opOf, hi] at hs
    rw [opOf, hi', ← hacts] at hs'
    rw [← hacts]
    exact install_deterministic (hr.trans hr'.symm) hs hs'

theorem installOp_cases (t : TblIndex cfg) (acts : List (Action cfg)) :
    installOp t acts = .idle ∨ ∃ tbl copied, installOp t acts = .load tbl copied := by
  unfold installOp
  split
  · split_ifs
    · exact Or.inr ⟨_, _, rfl⟩
    · exact Or.inl rfl
  · exact Or.inl rfl

/-- An event settles the operation and the answers that the operation asks for. -/
theorem event_op {s s' r r' : State cfg} {l l' : Label cfg} {t : TblIndex cfg}
    {e : TableEvent cfg} (st : Step s l r) (st' : Step s' l' r')
    (he : eventOf t l.services l.input = some e) (he' : eventOf t l'.services l'.input = some e) :
    opOf l t = opOf l' t ∧ (opOf l t = .pass → l.services.memRead t = l'.services.memRead t) ∧
    ∀ tbl copied, opOf l t = .load tbl copied →
      l.services.toResolver = l'.services.toResolver := by
  have hf := event_follows he
  have hf' := event_follows he'
  cases e with
  | wakeup memRead =>
    obtain ⟨hm, hop⟩ := hf
    obtain ⟨hm', hop'⟩ := hf'
    refine ⟨hop.trans hop'.symm, fun _ => hm.trans hm'.symm, ?_⟩
    rw [hop]
    simp
  | start access =>
    obtain ⟨ha, hop⟩ := hf
    obtain ⟨ha', hop'⟩ := hf'
    rw [hop, hop', granted_congr (ha.trans ha'.symm)]
    simp
  | stop access =>
    obtain ⟨ha, hop⟩ := hf
    obtain ⟨ha', hop'⟩ := hf'
    rw [hop, hop', granted_congr (ha.trans ha'.symm)]
    simp
  | jam p resolver access messageStringGet =>
    obtain ⟨hr, ha, hm, hop⟩ := hf
    obtain ⟨hr', ha', hm', hop'⟩ := hf'
    have hsame := jamOp_congr (p := p) (hr.trans hr'.symm) (ha.trans ha'.symm) (hm.trans hm'.symm)
    have hplain := plain_jamOp l.services p t
    rw [hop, hop', ← hsame]
    exact ⟨rfl, fun h => absurd h hplain.1, fun tbl copied h => absurd h (hplain.2 tbl copied)⟩
  | setSignature p access =>
    obtain ⟨ha, hop⟩ := hf
    obtain ⟨ha', hop'⟩ := hf'
    have hsame := signOp_congr (p := p) (ha.trans ha'.symm)
    have hplain := plain_signOp l.services p t
    rw [hop, hop', ← hsame]
    exact ⟨rfl, fun h => absurd h hplain.1, fun tbl copied h => absurd h (hplain.2 tbl copied)⟩
  | manage calls resolver =>
    obtain ⟨hr, hi⟩ := hf
    obtain ⟨hr', hi'⟩ := hf'
    have hop : opOf l t = installOp t l.actions := by rw [opOf, hi]
    have hop' : opOf l' t = installOp t l'.actions := by rw [opOf, hi']
    refine ⟨?_, fun hpass => ?_, fun _ _ _ => hr.trans hr'.symm⟩
    · rw [hop, hop', step_manage_actions st st' hi hi']
    · rw [hop] at hpass
      rcases installOp_cases t l.actions with h | ⟨tbl, copied, h⟩ <;> rw [h] at hpass <;>
        cases hpass

theorem tableObserver_isolated (t : TblIndex cfg) :
    Isolated (@Step cfg) (tableObserver t) := by
  constructor
  · intro s l s' st h
    have hs := (step_move st t).step
    rw [eventOf_none st h] at hs
    exact hs
  · intro s l r s' l' r' e st st' hv he he'
    exact event_determined st st' hv he he'

/-- The dwell packets sent for table `t`, in the order of sending. -/
def packetsOf (t : TblIndex cfg) (tr : List (State cfg × Label cfg)) : List (DwellPkt cfg) :=
  tr.flatMap fun q => q.2.actions.filterMap fun a =>
    match a with
    | .sendDwell u pkt => if u = t then some pkt else none
    | _ => none

theorem packetsOf_outputs (t : TblIndex cfg) (tr : List (State cfg × Label cfg)) :
    packetsOf t tr = ((tableObserver t).outputs tr).filterMap fun a =>
      match a with
      | .sendDwell _ pkt => some pkt
      | _ => none := by
  rw [packetsOf, Observer.outputs, List.filterMap_flatMap]
  congr 1
  funext q
  change _ = (q.2.actions.filter fun a => actionTable a = some t).filterMap _
  rw [List.filterMap_filter]
  congr 1
  funext a
  cases a with
  | sendDwell u pkt => simp [actionTable]
  | _ => simp

theorem events_of_calls {t : TblIndex cfg} {tr : List (State cfg × Label cfg)}
    {ks : List (Services cfg × Input cfg)} (h : tr.map (fun q => Label.call q.2) = ks) :
    (tableObserver t).events tr = ks.filterMap fun k => eventOf t k.1 k.2 := by
  rw [← h, List.filterMap_map]
  rfl

namespace TwoTables

def config : Config := twoTables

def calls : InitCalls config := recoverAll (loadTable config 0 [loadEntry config 4 1 16])

def inputs : List (Services config × Input config) :=
  [(smallServices config .success, startMsg config 3),
    (smallServices config .success, jamMsg config 2 1 2 1 100),
    (smallServices config .success, wakeupMsg config)]

def inputs' : List (Services config × Input config) :=
  [(smallServices config .success, startMsg config 1),
    (smallServices config .success, wakeupMsg config)]

end TwoTables

end StreamIsolation
