import MemoryDwell.DwellTraces
import MemoryDwell.MaskBits

/-! # Start and Stop

Start and Stop are union and difference on the set of enabled tables, whatever Table
Services answers. The set is what housekeeping reports in `DwellEnabledMask`. -/
namespace SwitchCommands

open DwellData DwellUtils DwellTbl DwellPkts DwellCmds DwellApp DwellRuns DwellStreams
open StreamInit DwellTraces TransitionRuns MaskBits

variable {cfg : Config}

def Flagged (c : DwellPacketControl cfg) : Prop :=
  c.enabled = dwellDisabled ∨ c.enabled = dwellEnabled

theorem flagged_adopt (r : Resolver) {tbl : DwellTableLoad cfg} (c : DwellPacketControl cfg)
    (h : tbl.enabled = dwellDisabled ∨ tbl.enabled = dwellEnabled) : Flagged (adopt r tbl c) := by
  rw [Flagged, (adopt_contents r tbl c).enabled]
  rcases h with h | h
  · exact Or.inl (by simp [copiedUpTo, h, dwellDisabled])
  · exact Or.inr (by simp [copiedUpTo, h, dwellEnabled])

theorem flagged_move {l : Label cfg} {t : TblIndex cfg} {x y : Stream cfg}
    (ha : ∃ r, LoadAccepted r l t x) (hx : Flagged x.control) (m : StreamMove l t x y) :
    Flagged y.control := by
  simp only [LoadAccepted] at ha
  rcases m.control_cases with h | ⟨_, -, h⟩ | ⟨_, -, h⟩ | ⟨e, new, load, -, h⟩ |
    ⟨e, new, load, -, h⟩ | ⟨_, h⟩ | ⟨tbl, hop, h⟩ | ⟨fuel, p, -, hpass, h⟩ <;> rw [h]
  · exact hx
  · exact Or.inr rfl
  · exact Or.inl rfl
  · exact hx
  · exact hx
  · exact hx
  · rw [hop] at ha
    obtain ⟨r, ha⟩ := ha
    exact flagged_adopt _ _ ha.enabled
  · rw [Flagged, (dwellTable_contents hpass).enabled]
    exact hx

theorem flagged_started {r : Resolver} {calls : InitCalls cfg} {s : State cfg}
    (h : Started r calls s) (t : TblIndex cfg) : Flagged (s.dwellTables t) := by
  rw [started_control h t]
  split_ifs with hr
  · exact flagged_adopt _ _ hr.2.2.enabled
  · exact Or.inl rfl

theorem run_flagged {r : Resolver} {calls : InitCalls cfg} {s₀ s : State cfg}
    {tr : List (State cfg × Label cfg)} (h₀ : Started r calls s₀) (run : Run AnyStep s₀ tr s)
    (loads : EveryStep (EachStream fun l t x => ∃ r, LoadAccepted r l t x) tr) :
    EveryState (AllStreams fun x => Flagged x.control) tr s :=
  run_streams (fun _ _ _ _ ha hx m => flagged_move ha hx m) run (flagged_started h₀) loads

/-- The bits `word` are those of the enabled tables. -/
structure EnabledSet (s : State cfg) (word : UInt16) : Prop where
  tables : ∀ t : TblIndex cfg,
    word.toNat.testBit t = true ↔ (s.dwellTables t).enabled = dwellEnabled
  others : ∀ j, cfg.numDwellTables ≤ j → word.toNat.testBit j = false

theorem testBit_memDwellEnableBits {s : State cfg} (h : ∀ t, Flagged (s.dwellTables t)) (j : ℕ) :
    (memDwellEnableBits s).testBit j = true ↔
      ∃ t : TblIndex cfg, t.val = j ∧ (s.dwellTables t).enabled = dwellEnabled := by
  have hflag : ∀ t, (s.dwellTables t).enabled ≤ 1 := by
    intro t
    rcases h t with ht | ht <;> rw [ht] <;> decide
  exact testBit_gather cfg.tables_le hflag j

theorem EnabledSet.reported {s : State cfg} {word : UInt16} (h : EnabledSet s word)
    (hf : ∀ t, Flagged (s.dwellTables t)) :
    (hkStatus s).1.hkPkt.dwellEnabledMask = word.toNat := by
  apply Nat.eq_of_testBit_eq
  intro j
  apply Bool.eq_iff_iff.mpr
  apply (testBit_memDwellEnableBits hf j).trans
  constructor
  · rintro ⟨t, rfl, ht⟩
    exact (h.tables t).mpr ht
  · intro hw
    by_cases hj : j < cfg.numDwellTables
    · exact ⟨⟨j, hj⟩, rfl, (h.tables ⟨j, hj⟩).mp hw⟩
    · rw [h.others j (not_lt.mp hj)] at hw
      cases hw

inductive Switch where
  | start (mask : UInt16)
  | stop (mask : UInt16)
  deriving DecidableEq, Repr

def Switch.mask : Switch → UInt16
  | .start mask | .stop mask => mask

def Switch.isStart : Switch → Bool
  | .start _ => true
  | .stop _ => false

/-- Bit `t` of the mask names table `t`, counted from zero. -/
def Switch.names (c : Switch) (t : TblIndex cfg) : Bool := c.mask.toNat.testBit t

/-- What a command writes into the structures of the tables it names. -/
def Switch.write : Switch → DwellPacketControl cfg → DwellPacketControl cfg
  | .start _ => switchControl dwellEnabled 1
  | .stop _ => switchControl dwellDisabled 0

/-- A command as an operation on sets of tables. -/
def Switch.onSet (numTables : ℕ) (word : UInt16) : Switch → UInt16
  | .start mask => word ||| (mask &&& low numTables)
  | .stop mask => word &&& ~~~mask

def execSwitch (s : State cfg) (c : Services cfg × Switch) : State cfg :=
  match c.2 with
  | .start mask => (startDwellCmd c.1 ⟨mask⟩ s).2
  | .stop mask => (stopDwellCmd c.1 ⟨mask⟩ s).2

def execSwitches (s : State cfg) (cs : List (Services cfg × Switch)) : State cfg :=
  cs.foldl execSwitch s

theorem execSwitch_control (s : State cfg) (c : Services cfg × Switch) (t : TblIndex cfg) :
    (execSwitch s c).dwellTables t =
      if c.2.names t then c.2.write (s.dwellTables t) else s.dwellTables t := by
  obtain ⟨svc, c⟩ := c
  cases c with
  | start mask =>
    have hc := congrArg Stream.control (startDwellCmd_stream svc ⟨mask⟩ s t)
    rw [tableIsInMask_eq, apply_ite Stream.control] at hc
    exact hc
  | stop mask =>
    have hc := congrArg Stream.control (stopDwellCmd_stream svc ⟨mask⟩ s t)
    rw [tableIsInMask_eq, apply_ite Stream.control] at hc
    exact hc

theorem Switch.write_flagged (c : Switch) (x : DwellPacketControl cfg) : Flagged (c.write x) := by
  cases c with
  | start _ => exact Or.inr rfl
  | stop _ => exact Or.inl rfl

theorem execSwitch_flagged {s : State cfg} (h : ∀ t, Flagged (s.dwellTables t))
    (c : Services cfg × Switch) (t : TblIndex cfg) : Flagged ((execSwitch s c).dwellTables t) := by
  rw [execSwitch_control]
  split_ifs
  · exact c.2.write_flagged _
  · exact h t

theorem Switch.write_enabled (c : Switch) (x : DwellPacketControl cfg) :
    (c.write x).enabled = dwellEnabled ↔ c.isStart = true := by
  cases c with
  | start _ => exact iff_of_true rfl rfl
  | stop _ => exact iff_of_false (by simp [Switch.write, switchControl, dwellDisabled,
      dwellEnabled]) Bool.false_ne_true

theorem Switch.testBit_onSet (c : Switch) {n j : ℕ} (hn : n ≤ 16) (hj : j < n) (word : UInt16) :
    (c.onSet n word).toNat.testBit j =
      if c.mask.toNat.testBit j then c.isStart else word.toNat.testBit j := by
  cases c with
  | start mask =>
    simp only [Switch.onSet, Switch.mask, UInt16.toNat_or, UInt16.toNat_and, Nat.testBit_or,
      Nat.testBit_and, testBit_low hn, hj, decide_true, Bool.and_true]
    split_ifs with hm <;> simp [Switch.isStart, hm]
  | stop mask =>
    simp only [Switch.onSet, Switch.mask, UInt16.toNat_and, Nat.testBit_and,
      testBit_not (show j < 16 by omega)]
    split_ifs with hm <;> simp [Switch.isStart, hm]

theorem Switch.onSet_others (c : Switch) {n j : ℕ} (hn : n ≤ 16) (hj : n ≤ j) {word : UInt16}
    (h : word.toNat.testBit j = false) : (c.onSet n word).toNat.testBit j = false := by
  cases c with
  | start mask => simp [Switch.onSet, h, testBit_low hn, Nat.not_lt.mpr hj]
  | stop mask => simp [Switch.onSet, h]

theorem EnabledSet.execSwitch {s : State cfg} {word : UInt16} (h : EnabledSet s word)
    (c : Services cfg × Switch) :
    EnabledSet (execSwitch s c) (c.2.onSet cfg.numDwellTables word) := by
  constructor
  · intro t
    rw [execSwitch_control, c.2.testBit_onSet cfg.tables_le t.isLt]
    by_cases hn : c.2.names t = true
    · rw [if_pos hn, if_pos (show c.2.mask.toNat.testBit t = true from hn), Switch.write_enabled]
    · rw [if_neg hn, if_neg (show ¬ c.2.mask.toNat.testBit t = true from hn)]
      exact h.tables t
  · intro j hj
    exact c.2.onSet_others cfg.tables_le hj (h.others j hj)

theorem execSwitches_enabled {s : State cfg} {word : UInt16} (h : EnabledSet s word)
    (hf : ∀ t, Flagged (s.dwellTables t)) (cs : List (Services cfg × Switch)) :
    EnabledSet (execSwitches s cs)
        (cs.foldl (fun word c => c.2.onSet cfg.numDwellTables word) word) ∧
      ∀ t, Flagged ((execSwitches s cs).dwellTables t) := by
  induction cs generalizing s word with
  | nil => exact ⟨h, hf⟩
  | cons c cs ih => exact ih (h.execSwitch c) (execSwitch_flagged hf c)

theorem execSwitches_unnamed {cs : List (Services cfg × Switch)} {t : TblIndex cfg}
    (h : ∀ c ∈ cs, c.2.names t = false) (s : State cfg) :
    (execSwitches s cs).dwellTables t = s.dwellTables t := by
  induction cs generalizing s with
  | nil => rfl
  | cons c cs ih =>
    obtain ⟨hc, hcs⟩ := List.forall_mem_cons.mp h
    apply (ih hcs (execSwitch s c)).trans
    rw [execSwitch_control, hc, if_neg Bool.false_ne_true]

/-- The last command that names a table decides. -/
theorem execSwitches_named {pre post : List (Services cfg × Switch)} {c : Services cfg × Switch}
    {t : TblIndex cfg} (hc : c.2.names t = true) (h : ∀ d ∈ post, d.2.names t = false)
    (s : State cfg) :
    (execSwitches s (pre ++ c :: post)).dwellTables t =
      c.2.write ((execSwitches s pre).dwellTables t) := by
  rw [execSwitches, List.foldl_append, List.foldl_cons]
  apply (execSwitches_unnamed h _).trans
  rw [execSwitch_control, if_pos hc]
  rfl

theorem Switch.write_position (c : Switch) (x : DwellPacketControl cfg) :
    (c.write x).countdown = (if c.isStart then 1 else 0) ∧ (c.write x).currentEntry = 0 ∧
      (c.write x).pktOffset = 0 := by
  cases c <;> exact ⟨rfl, rfl, rfl⟩

theorem enabledSet_exists {s : State cfg} (hf : ∀ t, Flagged (s.dwellTables t)) :
    ∃ word, EnabledSet s word := by
  refine ⟨UInt16.ofNat (memDwellEnableBits s), ?_, ?_⟩
  · intro t
    have ht : t.val < 16 := t.isLt.trans_le cfg.tables_le
    rw [UInt16.toNat_ofNat', Nat.testBit_mod_two_pow, Bool.and_eq_true, decide_eq_true_eq,
      and_iff_right ht, testBit_memDwellEnableBits hf]
    constructor
    · rintro ⟨u, hu, he⟩
      exact Fin.ext hu ▸ he
    · intro he
      exact ⟨t, rfl, he⟩
  · intro j hj
    rw [UInt16.toNat_ofNat', Nat.testBit_mod_two_pow]
    cases hb : (memDwellEnableBits s).testBit j with
    | false => exact Bool.and_false _
    | true =>
      obtain ⟨t, rfl, -⟩ := (testBit_memDwellEnableBits hf j).mp hb
      exact absurd t.isLt (Nat.not_lt.mpr hj)

section Laws

variable (s : State cfg) (svc₁ svc₂ svc₃ svc₄ : Services cfg)

theorem execSwitches_pair (c d : Services cfg × Switch) (t : TblIndex cfg) :
    (execSwitches s [c, d]).dwellTables t =
      if d.2.names t then
        d.2.write (if c.2.names t then c.2.write (s.dwellTables t) else s.dwellTables t)
      else if c.2.names t then c.2.write (s.dwellTables t) else s.dwellTables t := by
  rw [execSwitches, List.foldl_cons, List.foldl_cons, List.foldl_nil, execSwitch_control,
    execSwitch_control]

theorem start_union (m₁ m₂ : UInt16) :
    (execSwitches s [(svc₁, .start m₁), (svc₂, .start m₂)]).dwellTables =
      (execSwitch s (svc₃, .start (m₁ ||| m₂))).dwellTables := by
  funext t
  have hnames : (Switch.start (m₁ ||| m₂)).names t =
      ((Switch.start m₁).names t || (Switch.start m₂).names t) := by
    simp [Switch.names, Switch.mask]
  rw [execSwitches_pair, execSwitch_control]
  simp only [hnames]
  cases (Switch.start m₁).names t <;> cases (Switch.start m₂).names t <;> rfl

theorem stop_idempotent (m : UInt16) :
    (execSwitches s [(svc₁, .stop m), (svc₂, .stop m)]).dwellTables =
      (execSwitch s (svc₃, .stop m)).dwellTables := by
  funext t
  rw [execSwitches_pair, execSwitch_control]
  split_ifs <;> rfl

theorem disjoint_commute {c d : Switch} (h : c.mask &&& d.mask = 0) :
    (execSwitches s [(svc₁, c), (svc₂, d)]).dwellTables =
      (execSwitches s [(svc₃, d), (svc₄, c)]).dwellTables := by
  funext t
  have hand : (c.mask.toNat &&& d.mask.toNat).testBit t = false := by
    rw [← UInt16.toNat_and, h]
    exact Nat.zero_testBit t
  have hone : c.names t = false ∨ d.names t = false := by
    rwa [Nat.testBit_and, Bool.and_eq_false_iff] at hand
  rw [execSwitches_pair, execSwitches_pair]
  rcases hone with hn | hn
  · simp only [hn, Bool.false_eq_true, if_false]
  · simp only [hn, Bool.false_eq_true, if_false]

end Laws

/-- From every state that a run reaches: the set that housekeeping reports, the tables that
no command names and those that one does, and the laws. -/
theorem switches_are_set_operations {r : Resolver} {calls : InitCalls cfg} {s₀ s : State cfg}
    {tr : List (State cfg × Label cfg)} (h₀ : Started r calls s₀) (run : Run AnyStep s₀ tr s)
    (loads : EveryStep (EachStream fun l t x => ∃ r, LoadAccepted r l t x) tr) :
    (∃ word, EnabledSet s word ∧ ∀ cs : List (Services cfg × Switch),
      (hkStatus (execSwitches s cs)).1.hkPkt.dwellEnabledMask =
        (cs.foldl (fun word c => c.2.onSet cfg.numDwellTables word) word).toNat) ∧
    (∀ (cs : List (Services cfg × Switch)) (t : TblIndex cfg),
      (∀ c ∈ cs, c.2.names t = false) → (execSwitches s cs).dwellTables t = s.dwellTables t) ∧
    (∀ (pre : List (Services cfg × Switch)) c post (t : TblIndex cfg), c.2.names t = true →
      (∀ d ∈ post, d.2.names t = false) →
      let control := (execSwitches s (pre ++ c :: post)).dwellTables t
      control.countdown = (if c.2.isStart then 1 else 0) ∧ control.currentEntry = 0 ∧
        control.pktOffset = 0) ∧
    (∀ svc₁ svc₂ svc₃ m₁ m₂,
      (execSwitches s [(svc₁, .start m₁), (svc₂, .start m₂)]).dwellTables =
        (execSwitch s (svc₃, .start (m₁ ||| m₂))).dwellTables) ∧
    (∀ svc₁ svc₂ svc₃ m, (execSwitches s [(svc₁, .stop m), (svc₂, .stop m)]).dwellTables =
      (execSwitch s (svc₃, .stop m)).dwellTables) ∧
    (∀ svc₁ svc₂ svc₃ svc₄ c d, c.mask &&& d.mask = 0 →
      (execSwitches s [(svc₁, c), (svc₂, d)]).dwellTables =
        (execSwitches s [(svc₃, d), (svc₄, c)]).dwellTables) := by
  have hf : ∀ t, Flagged (s.dwellTables t) := (run_flagged h₀ run loads).2
  refine ⟨?_, ?_, ?_, ?_, ?_, ?_⟩
  · obtain ⟨word, hw⟩ := enabledSet_exists hf
    refine ⟨word, hw, fun cs => ?_⟩
    obtain ⟨hset, hflag⟩ := execSwitches_enabled hw hf cs
    exact hset.reported hflag
  · intro cs t h
    exact execSwitches_unnamed h s
  · intro pre c post t hc h
    rw [execSwitches_named hc h]
    exact c.2.write_position _
  · exact start_union s
  · exact stop_idempotent s
  · intro svc₁ svc₂ svc₃ svc₄ c d h
    exact disjoint_commute s svc₁ svc₂ svc₃ svc₄ h

theorem switches_are_set_operations_run :
    let config := smallConfig 3 (by decide) (by decide)
    let svc := smallServices config (.error 1)
    ∃ s₀ tr s, Started flatMemory.resolver
        (recoverAll (loadTable config 1 [loadEntry config 4 1 16])) s₀ ∧ Run Step s₀ tr s ∧
      tr.map (fun q => Label.call q.2) = [(svc, wakeupMsg config)] ∧
      (∃ word, EnabledSet s word ∧ ∀ cs : List (Services config × Switch),
        (hkStatus (execSwitches s cs)).1.hkPkt.dwellEnabledMask =
          (cs.foldl (fun word c => c.2.onSet 1 word) word).toNat) := by
  intro config svc
  obtain ⟨s₀, tr, s, h₀, run, hk, hc⟩ := flight_run flatMemory.resolver
    (recoverAll (loadTable config 1 [loadEntry config 4 1 16])) 10 (blankState _)
    [(svc, wakeupMsg config)]
    (fun _ tr _ => EveryStep (EachStream (LoadAccepted flatMemory.resolver)) tr)
    (by decide +kernel)
  have loads := of_decide_eq_true hc
  obtain ⟨hmask, -⟩ := switches_are_set_operations h₀ (run_any run)
    fun q hq t => ⟨_, loads q hq t⟩
  exact ⟨s₀, tr, s, h₀, run, hk, hmask⟩

end SwitchCommands
