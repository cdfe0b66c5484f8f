import MemoryDwell.CommandAccounting
import MemoryDwell.EdsDispatch
import MemoryDwell.ReadResults

/-! # The two builds of the dispatcher

Both builds send a message to the same handler. They differ in what they make of a message
that has none, and in that only the EDS build looks at the status of a handler, which has
counted its failure already. -/
namespace DispatchAgreement

open DwellData DwellUtils DwellTbl DwellPkts DwellCmds DwellApp DwellDispatch DwellRuns
open DwellStreams DwellTraces CommandAccounting ReadResults EdsDispatch FueledLoop TransitionRuns

variable {cfg : Config}

section Status

variable (svc : Services cfg) (s : State cfg)

theorem switchTables_status (mask : UInt16) (enabled countdown : ℕ) (report : Bool) :
    let y := switchTables svc mask enabled countdown report s
    y.status = .success ↔ y.errorCount = 0 := by
  have main : ∀ (l : List (TblIndex cfg)) (x : MaskLoop cfg),
      (x.status = .success ↔ x.errorCount = 0) →
      let y := l.foldl (switchTable svc mask enabled countdown report) x
      (y.status = .success ↔ y.errorCount = 0) := by
    intro l
    induction l with
    | nil => exact fun _ hx => hx
    | cons t l ih =>
      intro x hx
      apply ih
      rw [switchTable]
      by_cases hm : tableIsInMask (t + 1) mask = true
      · rw [if_pos hm]
        dsimp only
        split_ifs with hf
        · exact iff_of_false hf not_false
        · exact hx
      · rw [if_neg hm]
        exact hx
  exact main _ (.start s) (iff_of_true rfl rfl)

theorem startDwellCmd_status (p : CmdStartStopPayload) :
    (startDwellCmd svc p s).1 = .success ↔
      ∀ t : TblIndex cfg, p.tableMask.toNat.testBit t = true → Granted svc t := by
  obtain ⟨he, -⟩ := switchTables_counts svc p.tableMask dwellEnabled 1 true s
  have hs := switchTables_status svc s p.tableMask dwellEnabled 1 true
  simp only [startDwellCmd]
  split_ifs with ha
  · exact hs.trans he
  · exact hs.trans he
  · refine iff_of_true rfl fun t ht => absurd ((anyTablesInMask_iff _).mpr ⟨t, ?_⟩) ha
    rw [tableIsInMask_eq, Nat.add_sub_cancel, ht]

theorem stopDwellCmd_status (p : CmdStartStopPayload) :
    (stopDwellCmd svc p s).1 = .success ↔
      ∀ t : TblIndex cfg, p.tableMask.toNat.testBit t = true → Granted svc t := by
  obtain ⟨he, -⟩ := switchTables_counts svc p.tableMask dwellDisabled 0 false s
  have hs := switchTables_status svc s p.tableMask dwellDisabled 0 false
  simp only [stopDwellCmd]
  split_ifs <;> exact hs.trans he

theorem jamOutcome_status (t : TblIndex cfg) (p : CmdJamPayload cfg) (done failed : EventMsg)
    (q : CFEStatus × State cfg) : (jamOutcome t p done failed q).1 = q.1 := by
  rw [jamOutcome]
  split_ifs <;> rfl

theorem jamDwellCmd_status (p : CmdJamPayload cfg) :
    (jamDwellCmd svc p s).1 = .success ↔
      (JamArgumentsOk svc p → ∀ t : TblIndex cfg, p.tableId.toNat = t + 1 → Granted svc t) := by
  rcases jamDwellCmd_cases svc p s with
    ⟨hnone, e, heq⟩ | ⟨t, new, load, done, failed, ht, hw, heq⟩
  · rw [heq]
    exact iff_of_true rfl fun hok => absurd hok (not_jamArgumentsOk hnone)
  · obtain ⟨hg, -⟩ := updateTable_counters svc t
      (fun b => { b with entry := Function.update b.entry (p.entryId.toNat - 1) load })
      (.updateTblDwellErr t) (writeEntry t (p.entryId.toNat - 1) new s)
    rw [heq, named_granted ht, imp_iff_right (jamArgumentsOk_of_write ht hw), jamOutcome_status]
    exact hg

theorem setSignatureCmd_status (p : CmdSetSignaturePayload cfg) :
    (setSignatureCmd svc p s).1 = .success ↔
      (p.signature.Terminated ∧ (∃ t : TblIndex cfg, p.tableId.toNat = t + 1) →
        ∀ t : TblIndex cfg, p.tableId.toNat = t + 1 → Granted svc t) := by
  simp only [← CharField.scanNul_lt_iff, ← tableIndex_eq_some]
  rcases setSignatureCmd_cases svc p s with ⟨hn, e, heq⟩ | ⟨t, done, failed, hl, ht, heq⟩
  · rw [heq]
    exact iff_of_true rfl fun h => absurd h hn
  · obtain ⟨hg, -⟩ := updateTable_counters svc t
      (fun b => { b with signature := b.signature.copyTerminated p.signature })
      (.updateTblSigErr t)
      (s.setTable t { s.dwellTables t with
        signature := (s.dwellTables t).signature.copyTerminated p.signature })
    have hgranted : (∀ u, tableIndex cfg p.tableId = some u → Granted svc u) ↔ Granted svc t := by
      simp [ht]
    rw [heq, imp_iff_right ⟨hl, t, ht⟩, hgranted, apply_ite Prod.fst, ite_self]
    exact hg

theorem processCommand_status (msg : Message cfg) :
    (processCommand svc msg s).1 = .success ↔
      (ArgumentsOk svc msg → ∀ t, Addresses msg t → Granted svc t) := by
  rw [processCommand]
  split_ifs with h1 h2 h3 h4 h5
  · apply iff_of_true rfl
    intro _ t ht
    simp [Addresses, h1, resetCntrsCC, startDwellCC, stopDwellCC, jamDwellCC,
      setSignatureCC] at ht
  · simp only [argumentsOk_switch (Or.inl h2), addresses_switch (Or.inl h2)]
    rw [startDwellCmd_status]
    exact ⟨fun h _ => h, fun h t ht => h ⟨t, ht⟩ t ht⟩
  · simp only [argumentsOk_switch (Or.inr h3), addresses_switch (Or.inr h3)]
    rw [stopDwellCmd_status]
    exact ⟨fun h _ => h, fun h t ht => h ⟨t, ht⟩ t ht⟩
  · simp only [argumentsOk_jam h4, addresses_jam h4]
    exact jamDwellCmd_status svc s msg.jam
  · simp only [argumentsOk_sign h5, addresses_sign h5]
    exact setSignatureCmd_status svc s msg.setSignature
  · apply iff_of_true rfl
    intro _ t ht
    simp only [Addresses, h2, h3, h4, h5, false_and, or_self] at ht

end Status

def Routed (msg : Message cfg) : Prop :=
  match msg.msgId with
  | .wakeup | .sendHk => msg.size = bareMsgLength cfg
  | .cmd => Dispatchable msg
  | .other _ => False

def handlerResult (svc : Services cfg) (fuel : ℕ) (msg : Message cfg) (s : State cfg) :
    Option (CFEStatus × State cfg × List (Action cfg)) :=
  match msg.msgId with
  | .wakeup => (dwellLoop svc fuel s).map fun w => (w.status, w.state, w.actions)
  | .cmd => some ((processCommand svc msg s).1, (processCommand svc msg s).2, [])
  | .sendHk => some (.success, hkStatus s)
  | .other _ => none

section Routing

variable {lib : EdsLibrary cfg} (hlib : lib.Documented) (svc : Services cfg) (fuel : ℕ)
  {msg : Message cfg} (s : State cfg)

theorem dispatchable_record (h : Dispatchable msg) :
    ∃ r, searchCmdHndlrTbl cfg msg.fcnCode = some r ∧ msg.size = r.expectedLength := by
  have hw := (wellFormed_iff msg).mpr h
  rw [wellFormed] at hw
  cases hf : searchCmdHndlrTbl cfg msg.fcnCode with
  | none => simp [hf] at hw
  | some r => exact ⟨r, rfl, by simpa [hf] using hw⟩

theorem not_dispatchable_record (h : ¬ Dispatchable msg) {r : CmdHandlerTblRec}
    (hf : searchCmdHndlrTbl cfg msg.fcnCode = some r) : msg.size ≠ r.expectedLength := by
  intro hl
  apply h
  rw [← wellFormed_iff, wellFormed, hf]
  exact decide_eq_true hl

theorem routed (h : Routed msg) :
    DwellDispatch.processCommandPacket svc fuel (some msg) s =
      (handlerResult svc fuel msg s).map Prod.snd := by
  simp only [Routed] at h
  simp only [DwellDispatch.processCommandPacket, handlerResult]
  cases hm : msg.msgId with
  | wakeup =>
    simp only [hm] at h ⊢
    rw [if_neg (not_not.mpr h), Option.map_map]
    rfl
  | sendHk =>
    simp only [hm] at h ⊢
    rw [if_neg (not_not.mpr h)]
    rfl
  | cmd =>
    simp only [hm] at h ⊢
    obtain ⟨r, hf, hl⟩ := dispatchable_record h
    simp [execRequest, hf, hl]
  | other v => simp [hm] at h

/-- A message without a handler; only for a ground command is this an error that counts. -/
theorem unrouted (h : ¬ Routed msg) :
    ∃ e, DwellDispatch.processCommandPacket svc fuel (some msg) s =
      some (if msg.msgId = .cmd then (s.sendEvent e).countErr else s.sendEvent e, []) := by
  simp only [Routed] at h
  simp only [DwellDispatch.processCommandPacket]
  cases hm : msg.msgId with
  | wakeup =>
    simp only [hm] at h ⊢
    exact ⟨_, if_pos h⟩
  | sendHk =>
    simp only [hm] at h ⊢
    exact ⟨_, if_pos h⟩
  | cmd =>
    simp only [hm] at h ⊢
    cases hf : searchCmdHndlrTbl cfg msg.fcnCode with
    | none => exact ⟨_, by simp [execRequest, hf]; rfl⟩
    | some r =>
      have hl := not_dispatchable_record h hf
      exact ⟨_, by simp [execRequest, hf, hl]; rfl⟩
  | other v => exact ⟨_, rfl⟩

include hlib

theorem eds_routed (h : Routed msg) :
    EdsDispatch.processCommandPacket lib svc fuel msg s =
      (handlerResult svc fuel msg s).map fun (status, s, actions) =>
        (reportStatus lib msg status s, actions) := by
  rw [EdsDispatch.processCommandPacket]
  congr 1
  simp only [Routed] at h
  simp only [handlerResult]
  cases hm : msg.msgId with
  | wakeup =>
    simp only [hm] at h ⊢
    exact hlib.wakeup _ msg s hm h
  | sendHk =>
    simp only [hm] at h ⊢
    exact hlib.sendHk _ msg s hm h
  | cmd =>
    simp only [hm] at h ⊢
    obtain ⟨r, hf, hl⟩ := dispatchable_record h
    obtain ⟨handler, hfind, hrun⟩ := find_some svc fuel hf
    exact (hlib.cmd _ msg s _ hm hfind hl).trans (hrun s)
  | other v => simp [hm] at h

theorem eds_unrouted (h : ¬ Routed msg) :
    ∃ e, EdsDispatch.processCommandPacket lib svc fuel msg s =
      some (s.countErr.sendEvent e, []) := by
  have refuse : ∀ {status}, status ≠ CFEStatus.success →
      lib.telecommand (tcDispatchTable svc fuel) msg s = some (status, s, []) →
      ∃ e, EdsDispatch.processCommandPacket lib svc fuel msg s =
        some (s.countErr.sendEvent e, []) := by
    intro status hs ht
    obtain ⟨e, he⟩ := reportStatus_error hs lib msg s
    refine ⟨e, ?_⟩
    rw [EdsDispatch.processCommandPacket, ht, Option.map_some, ← he]
  simp only [Routed] at h
  cases hm : msg.msgId with
  | wakeup =>
    simp only [hm] at h
    exact refuse hlib.wrongMsgLength_ne (hlib.bareLength _ msg s (Or.inl hm) h)
  | sendHk =>
    simp only [hm] at h
    exact refuse hlib.wrongMsgLength_ne (hlib.bareLength _ msg s (Or.inr hm) h)
  | cmd =>
    simp only [hm] at h
    cases hf : searchCmdHndlrTbl cfg msg.fcnCode with
    | none =>
      obtain ⟨status, hs, ht⟩ := hlib.unknownCode (tcDispatchTable svc fuel) msg s hm
        (find_none hf _)
      exact refuse hs ht
    | some r =>
      obtain ⟨handler, hfind, -⟩ := find_some svc fuel hf
      exact refuse hlib.wrongMsgLength_ne
        (hlib.cmdLength _ msg s _ hm hfind (not_dispatchable_record h hf))
  | other v => exact refuse hlib.unknownMsgId_ne (hlib.unknownId _ msg s v hm)

end Routing

def transmits : Action cfg → Bool
  | .sendDwell _ _ | .sendHk _ => true
  | .sample _ _ _ _ _ | .restart _ _ | .install _ _ _ => false

/-- What a message does to the counters and the dwell tables, and the packets it sends. -/
def effect (r : State cfg × List (Action cfg)) :
    ℕ × ℕ × (TblIndex cfg → DwellPacketControl cfg) × List (Action cfg) :=
  (r.1.cmdCounter, r.1.errCounter, r.1.dwellTables, r.2.filter transmits)

/-- Both builds have the same effect, with whatever fuel, or neither returns. -/
def Agree (lib : EdsLibrary cfg) (svc : Services cfg) (msg : Message cfg) (s : State cfg) : Prop :=
  ∀ fuel, (EdsDispatch.processCommandPacket lib svc fuel msg s).map effect =
    (DwellDispatch.processCommandPacket svc fuel (some msg) s).map effect

/-- The condition: a message that is wrong in itself is a ground command, a wakeup reads
without an error or never ends, and no command is refused by Table Services. -/
def TreatedAlike (svc : Services cfg) (msg : Message cfg) (s : State cfg) : Prop :=
  match msg.msgId with
  | .wakeup => msg.size = bareMsgLength cfg ∧
      ((∃ t, Endless (s.dwellTables t)) ∨ ∀ t, ReadsSucceed svc t (s.dwellTables t))
  | .sendHk => msg.size = bareMsgLength cfg
  | .cmd => Dispatchable msg → ArgumentsOk svc msg → ∀ t, Addresses msg t → Granted svc t
  | .other _ => False

theorem count_ne (n : ℕ) : (n + 1) % 256 ≠ n := by omega

theorem effect_reportStatus (lib : EdsLibrary cfg) (msg : Message cfg) (status : CFEStatus)
    (s : State cfg) (as : List (Action cfg)) :
    effect (reportStatus lib msg status s, as) = effect (s, as) ↔ status = .success := by
  by_cases hs : status = .success
  · simp [hs]
  · obtain ⟨e, he⟩ := reportStatus_error hs lib msg s
    refine iff_of_false (fun heq => ?_) hs
    rw [he] at heq
    exact count_ne s.errCounter (congrArg (fun x => x.2.1) heq)

section Message

variable {lib : EdsLibrary cfg} (hlib : lib.Documented) {svc : Services cfg}
  {msg : Message cfg} {s : State cfg}

include hlib

theorem agree_unrouted (h : ¬ Routed msg) : Agree lib svc msg s ↔ msg.msgId = .cmd := by
  constructor
  · intro ha
    by_contra hc
    obtain ⟨e, he⟩ := eds_unrouted hlib svc 0 s h
    obtain ⟨e', he'⟩ := unrouted svc 0 s h
    have heq := ha 0
    rw [he, he', if_neg hc, Option.map_some, Option.map_some, Option.some.injEq] at heq
    exact count_ne s.errCounter (congrArg (fun x => x.2.1) heq)
  · intro hc fuel
    obtain ⟨e, he⟩ := eds_unrouted hlib svc fuel s h
    obtain ⟨e', he'⟩ := unrouted svc fuel s h
    rw [he, he', if_pos hc]
    rfl

theorem agree_routed (h : Routed msg) :
    Agree lib svc msg s ↔
      ∀ fuel r, handlerResult svc fuel msg s = some r → r.1 = .success := by
  apply forall_congr'
  intro fuel
  rw [eds_routed hlib svc fuel s h, routed svc fuel s h]
  cases hr : handlerResult svc fuel msg s with
  | none => simp
  | some r =>
    obtain ⟨status, s', as⟩ := r
    simp only [Option.map_some, Option.some.injEq, forall_eq']
    exact effect_reportStatus lib msg status s' as

theorem agree_iff (hn : ∀ t, (s.dwellTables t).addrCount ≤ cfg.dwellTableSize) :
    Agree lib svc msg s ↔ TreatedAlike svc msg s := by
  by_cases h : Routed msg
  · rw [agree_routed hlib h]
    simp only [Routed] at h
    simp only [TreatedAlike, handlerResult]
    cases hm : msg.msgId with
    | wakeup =>
      simp only [hm] at h ⊢
      simp only [h, true_and, Option.map_eq_some_iff, forall_exists_index, and_imp,
        forall_apply_eq_imp_iff₂]
      by_cases hend : ∃ t, Endless (s.dwellTables t)
      · refine iff_of_true (fun fuel w hw => ?_) (Or.inl hend)
        obtain ⟨t, ht⟩ := hend
        exact absurd ht ((dwellLoop_ends_iff hn).mp ⟨fuel, w, hw⟩ t)
      · obtain ⟨fuel, w, hw⟩ : ∃ fuel w, dwellLoop svc fuel s = some w :=
          (dwellLoop_ends_iff hn).mpr (not_exists.mp hend)
        have hsize := fun t => (hn t).trans cfg.size_le
        constructor
        · intro ha
          exact Or.inr ((dwellLoop_status hsize hw).mp (ha fuel w hw))
        · intro hok fuel w hw
          exact (dwellLoop_status hsize hw).mpr (hok.resolve_left hend)
    | sendHk =>
      simp only [hm] at h ⊢
      exact iff_of_true (fun _ r hr => by cases hr; rfl) h
    | cmd =>
      simp only [hm] at h ⊢
      rw [imp_iff_right h, ← processCommand_status svc s msg]
      simp
    | other v => simp [hm] at h
  · rw [agree_unrouted hlib h]
    simp only [Routed] at h
    simp only [TreatedAlike]
    cases hm : msg.msgId with
    | wakeup =>
      simp only [hm] at h
      exact iff_of_false (by simp) fun hs => h hs.1
    | sendHk => simpa [hm] using h
    | cmd =>
      simp only [hm] at h
      exact iff_of_true rfl fun hd => absurd hd h
    | other v => simp

end Message

/-- A message taken by the EDS build. -/
def EdsStep (lib : EdsLibrary cfg) (s : State cfg) (l : Label cfg) (s' : State cfg) : Prop :=
  ∃ msg fuel, l.input = .message (some msg) ∧
    EdsDispatch.processCommandPacket lib l.services fuel msg s = some (s', l.actions) ∧
    ∀ a ∈ l.actions, ActionDefined a

def EitherStep (lib : EdsLibrary cfg) (s : State cfg) (l : Label cfg) (s' : State cfg) : Prop :=
  Step s l s' ∨ EdsStep lib s l s'

theorem stream_reportStatus (lib : EdsLibrary cfg) (msg : Message cfg) (status : CFEStatus)
    (s : State cfg) (t : TblIndex cfg) :
    stream (reportStatus lib msg status s) t = stream s t := by
  rw [reportStatus]
  split_ifs <;> rfl

theorem either_move {lib : EdsLibrary cfg} (hlib : lib.Documented) {s s' : State cfg}
    {l : Label cfg} (h : EitherStep lib s l s') (t : TblIndex cfg) :
    StreamMove l t (stream s t) (stream s' t) := by
  rcases h with st | ⟨msg, fuel, hi, he, hd⟩
  · exact step_move st t
  · obtain ⟨s'', hp, hs⟩ : ∃ s'',
        DwellDispatch.processCommandPacket l.services fuel (some msg) s = some (s'', l.actions) ∧
        stream s' t = stream s'' t := by
      by_cases hr : Routed msg
      · rw [eds_routed hlib l.services fuel s hr, Option.map_eq_some_iff] at he
        obtain ⟨⟨status, s'', as⟩, hh, heq⟩ := he
        cases heq
        refine ⟨s'', ?_, stream_reportStatus lib msg status s'' t⟩
        rw [routed l.services fuel s hr, hh]
        rfl
      · obtain ⟨e, hu⟩ := eds_unrouted hlib l.services fuel s hr
        obtain ⟨e', hu'⟩ := unrouted l.services fuel s hr
        rw [hu] at he
        simp only [Option.some.injEq, Prod.mk.injEq] at he
        refine ⟨_, he.2 ▸ hu', ?_⟩
        rw [← he.1]
        split_ifs <;> rfl
    rw [hs]
    refine step_move ⟨⟨fuel, ?_⟩, hd⟩ t
    obtain ⟨svc, input, actions⟩ := l
    subst hi
    simp only [exec, hp, Option.map_some]

theorem addrCount_move {l : Label cfg} {t : TblIndex cfg} {x y : Stream cfg}
    (hx : x.control.addrCount ≤ cfg.dwellTableSize) (m : StreamMove l t x y) :
    y.control.addrCount ≤ cfg.dwellTableSize := by
  rcases m.control_cases with h | ⟨_, -, h⟩ | ⟨_, -, h⟩ | ⟨e, new, load, -, h⟩ |
    ⟨e, new, load, -, h⟩ | ⟨_, h⟩ | ⟨tbl, -, h⟩ | ⟨fuel, p, -, hpass, h⟩ <;> rw [h]
  · exact hx
  · exact hx
  · exact hx
  · exact (WakeupEnds.driven_update _).bound
  · exact hx
  · exact hx
  · exact ((WakeupEnds.driven_update _).of_contents (adopt_contents _ tbl x.control)).bound
  · exact (dwellTable_contents hpass).addrCount.trans_le hx

/-- In whatever state either build can come to, the builds agree on a message just when
it is one of those treated alike. -/
theorem builds_agree_iff {lib : EdsLibrary cfg} (hlib : lib.Documented) {r : Resolver}
    {calls : InitCalls cfg} {s₀ s : State cfg} {tr : List (State cfg × Label cfg)}
    (h₀ : Started r calls s₀) (run : Run (EitherStep lib) s₀ tr s) (svc : Services cfg)
    (msg : Message cfg) : Agree lib svc msg s ↔ TreatedAlike svc msg s := by
  apply agree_iff hlib
  have hall := run.invariant
    (I := fun s => ∀ t, (s.dwellTables t).addrCount ≤ cfg.dwellTableSize)
    (fun s l s' hs st t => addrCount_move (hs t) (either_move hlib st t))
    (fun t => (WakeupEnds.driven_started h₀ t).bound)
  exact hall.2

def reference (cfg : Config) : EdsLibrary cfg where
  unknownMsgId := .error 0xc8000003
  wrongMsgLength := .error 0xc8000002
  telecommand T msg s :=
    match msg.msgId with
    | .wakeup =>
      if msg.size = bareMsgLength cfg then T.wakeup msg s else some (.error 0xc8000002, s, [])
    | .sendHk =>
      if msg.size = bareMsgLength cfg then T.sendHk msg s else some (.error 0xc8000002, s, [])
    | .cmd =>
      match T.cmd.find msg.fcnCode with
      | none => some (.error 0xc8000004, s, [])
      | some (size, handler) =>
        if msg.size = size then handler msg s else some (.error 0xc8000002, s, [])
    | .other _ => some (.error 0xc8000003, s, [])

theorem reference_documented (cfg : Config) : (reference cfg).Documented where
  unknownMsgId_ne := by simp [reference]
  wrongMsgLength_ne := by simp [reference]
  unknownId T msg s v h := by simp [reference, h]
  bareLength T msg s h hl := by rcases h with h | h <;> simp [reference, h, hl]
  wakeup T msg s h hl := by simp [reference, h, hl]
  sendHk T msg s h hl := by simp [reference, h, hl]
  unknownCode T msg s h hf := ⟨.error 0xc8000004, by simp, by simp [reference, h, hf]⟩
  cmdLength T msg s r h hf hl := by simp [reference, h, hf, hl]
  cmd T msg s r h hf hl := by simp [reference, h, hf, hl]

namespace Counterexample

def config : Config := threeEntries

def calls : InitCalls config := recoverAll (loadTable config 1 [loadEntry config 4 1 16])

def refusing : Services config := smallServices config (.error 1)

def messages : List (Message config) :=
  [{ blankMsg config .cmd startDwellCC (config.cmdHeaderSize + 4) with startStop := ⟨1⟩ },
    blankMsg config .wakeup 0 (bareMsgLength config + 2),
    blankMsg config (.other 0x1897) 0 (bareMsgLength config)]

end Counterexample

theorem not_agree_of_errCounter {lib : EdsLibrary cfg} {svc : Services cfg} {msg : Message cfg}
    {s : State cfg} {fuel : ℕ}
    (h : (EdsDispatch.processCommandPacket lib svc fuel msg s).map (fun r => r.1.errCounter) ≠
      (DwellDispatch.processCommandPacket svc fuel (some msg) s).map fun r => r.1.errCounter) :
    ¬ Agree lib svc msg s := by
  intro ha
  have hmap := congrArg (Option.map fun x => x.2.1) (ha fuel)
  rw [Option.map_map, Option.map_map] at hmap
  exact h hmap

/-- A refused Start is counted twice by the EDS build, and only that build counts the
other two messages. -/
theorem builds_disagree :
    (reference Counterexample.config).Documented ∧
    ∃ s₀ tr s, Started flatMemory.resolver Counterexample.calls s₀ ∧
      Run (EitherStep (reference _)) s₀ tr s ∧
      ∀ msg ∈ Counterexample.messages,
        ¬ Agree (reference _) Counterexample.refusing msg s := by
  obtain ⟨s₀, tr, s, h₀, run, -, hc⟩ := flight_run flatMemory.resolver Counterexample.calls 10
    (blankState _) [] (fun _ _ s => ∀ msg ∈ Counterexample.messages,
      (EdsDispatch.processCommandPacket (reference _) Counterexample.refusing 10 msg s).map
          (fun r => r.1.errCounter) ≠
        (DwellDispatch.processCommandPacket Counterexample.refusing 10 (some msg) s).map
          fun r => r.1.errCounter)
    (by decide +kernel)
  exact ⟨reference_documented _, s₀, tr, s, h₀, run.imp fun _ _ _ st => Or.inl st,
    fun msg hm => not_agree_of_errCounter (of_decide_eq_true hc msg hm)⟩

theorem builds_agree_start :
    ∃ s₀ tr s, Started flatMemory.resolver Counterexample.calls s₀ ∧
      Run (EitherStep (reference _)) s₀ tr s ∧
      tr.map (fun q => Label.call q.2) =
        [(smallServices Counterexample.config .success, wakeupMsg Counterexample.config)] ∧
      Agree (reference _) (smallServices Counterexample.config .success)
        { blankMsg _ .cmd startDwellCC (Counterexample.config.cmdHeaderSize + 4) with
          startStop := ⟨1⟩ } s := by
  obtain ⟨s₀, tr, s, h₀, run, hk, -⟩ := flight_run flatMemory.resolver Counterexample.calls 10
    (blankState _) [(smallServices _ .success, wakeupMsg _)] (fun _ _ _ => true)
    (by decide +kernel)
  have runs : Run (EitherStep (reference _)) s₀ tr s := run.imp fun _ _ _ st => Or.inl st
  refine ⟨s₀, tr, s, h₀, runs, hk, (builds_agree_iff (reference_documented _) h₀ runs _ _).mpr ?_⟩
  exact fun _ _ _ _ => Or.inl rfl

end DispatchAgreement
