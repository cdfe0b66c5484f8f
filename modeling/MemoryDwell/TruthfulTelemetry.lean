import MemoryDwell.InitialCopies
import MemoryDwell.SignaturePath
import MemoryDwell.StoppedStreams

/-! # Telemetry and the tables

As long as Table Services grants access and updates are copied, the headers of the dwell
packets and housekeeping tell of the tables what a dump of the buffers would tell. -/
namespace TruthfulTelemetry

open DwellData DwellUtils DwellTbl DwellPkts DwellApp DwellDispatch DwellRuns DwellStreams
open StreamInit DwellTraces WorkingCopy InitialCopies SwitchCommands SignaturePath
open CollectedBytes StoppedStreams TransitionRuns

variable {cfg : Config}

/-- The control structure tells of its buffer all but the addresses, its signature can be
printed, and it is on or off. -/
structure Told (x : Stream cfg) : Prop where
  mirrors : Mirrors x
  totals : summary x.control = readDwellTable x.buffer
  terminated : x.control.signature.Terminated
  flagged : Flagged x.control

/-- And the addresses, of the entries whose names end in their fields. -/
structure Truthful (m : MemoryMap) (x : Stream cfg) : Prop extends Told x where
  inStep : InStep (m.inField cfg) x

theorem Truthful.agrees {m : MemoryMap} {x : Stream cfg} (h : Truthful m x) :
    Agrees (m.inField cfg) x := ⟨h.inStep, h.totals⟩

/-- The header of a packet is that of a table with the contents `b`. -/
structure Describes (t : TblIndex cfg) (b : DwellTableLoad cfg) (pkt : DwellPkt cfg) : Prop where
  tableId : pkt.tableId = t + 1
  addrCount : pkt.addrCount = (readDwellTable b).addrCount % 256
  rate : pkt.rate = (readDwellTable b).rate
  byteCount : pkt.byteCount = (readDwellTable b).dataSize
  signature : pkt.signature.cstr = b.signature.cstr
  size : pkt.size =
    (dwellPktSizeof cfg - cfg.dwellTableSize * 4 + (readDwellTable b).dataSize) % 65536

/-- Housekeeping says of table `t` that its contents are `b`. -/
structure Reports (t : TblIndex cfg) (b : DwellTableLoad cfg) (p : HkTlmPayload cfg) : Prop where
  enabled : p.dwellEnabledMask.testBit t = true ↔ b.enabled = dwellEnabled
  addrCount : p.dwellTblAddrCount t = (readDwellTable b).addrCount
  rate : p.numWaitsPerPkt t = (readDwellTable b).rate % 65536
  byteCount : p.byteCount t = (readDwellTable b).dataSize

theorem told_adopt {r : Resolver} {tbl : DwellTableLoad cfg} (ha : Accepted r tbl)
    (c : DwellPacketControl cfg) (pkt : DwellPkt cfg) : Told ⟨adopt r tbl c, pkt, tbl⟩ := by
  refine ⟨adopt_mirrors ha c pkt, adopt_totals r tbl c, ?_, flagged_adopt r c ha.enabled⟩
  rw [adopt_signature]
  exact CharField.copyTerminated_terminated (signatureFieldLength_pos cfg) _ _

theorem move_told {l : Label cfg} {t : TblIndex cfg} {x y : Stream cfg} (hx : Told x)
    (mv : GrantedMove l t x y) : Told y := by
  have hy := move_mirrors hx.mirrors mv
  cases mv with
  | contents pkt hc =>
    refine ⟨hy, (summary_of_contents hc).trans hx.totals, ?_, ?_⟩
    · rw [hc.signature]
      exact hx.terminated
    · rw [Flagged, hc.enabled]
      exact hx.flagged
  | switch he => exact ⟨hy, hx.totals, hx.terminated, he⟩
  | sign => exact ⟨hy, hx.totals,
      CharField.copyTerminated_terminated (signatureFieldLength_pos cfg) _ _, hx.flagged⟩
  | jam => exact ⟨hy, summary_update hy.length hy.delay, hx.terminated, hx.flagged⟩
  | load hop ha => exact told_adopt ha _ _

theorem step_truthful {m : MemoryMap} {s s' : State cfg} {l : Label cfg} (st : AnyStep s l s')
    (hc : Cooperative m l.services l.input) {t : TblIndex cfg} (hx : Truthful m (stream s t)) :
    Truthful m (stream s' t) := by
  have mv := granted_move st hc.toGranting t
  exact ⟨move_told hx.toTold mv, move_inField hc.toEnvironment hx.inStep mv⟩

/-- A validated load that is copied makes the stream truthful, whatever it was before. -/
theorem load_truthful {m : MemoryMap} {s s' : State cfg} {l : Label cfg} (st : AnyStep s l s')
    (hm : m.Answers cfg l.services.toResolver) {t : TblIndex cfg} {tbl : DwellTableLoad cfg}
    (hop : opOf l t = .load tbl true) (ha : Accepted l.services.toResolver tbl) :
    Truthful m (stream s' t) := by
  have hs := (anyStep_move st t).step
  rw [hop] at hs
  rw [hs.1]
  exact ⟨told_adopt ha _ _, adopt_inStep (inField_foundBy hm) ha _ _⟩

theorem recovered_truthful {m : MemoryMap} {r : Resolver} (hm : m.Answers cfg r)
    {calls : InitCalls cfg} {s : State cfg} (h : Started r calls s) {t : TblIndex cfg}
    (hr : Recovers r calls t) : Truthful m (stream s t) := by
  obtain ⟨-, buffer, ht⟩ := started_stream h t
  rw [initStream, if_pos hr] at ht
  rw [ht]
  exact ⟨told_adopt hr.2.2 _ _, adopt_inStep (inField_foundBy hm) hr.2.2 _ _⟩

theorem packet_describes {s s' : State cfg} {l : Label cfg} (st : Step s l s')
    {t : TblIndex cfg} (hx : Told (stream s t)) {pkt : DwellPkt cfg}
    (hp : .sendDwell t pkt ∈ l.actions) : Describes t (s.tblBuffer t) pkt := by
  have hmem : .sendDwell t pkt ∈ actionsOf t l.actions :=
    List.mem_filter.mpr ⟨hp, by simp [actionTable]⟩
  have hs := (step_move st t).step
  cases hop : opOf l t with
  | pass =>
    rw [hop] at hs
    obtain ⟨fuel, p, hpass, -, hacts⟩ := hs
    rw [hacts] at hmem
    obtain ⟨last, r, hr, rfl⟩ := sent_sending hpass hmem
    have hcont : SameContents (s.dwellTables t) r.control := sending_contents hr
    obtain ⟨hcount, hsize, hrate⟩ := Totals.mk.inj hx.totals
    have hterm : r.control.signature.Terminated := by
      rw [hcont.signature]
      exact hx.terminated
    have htables := cfg.tables_le
    constructor
    · apply Nat.mod_eq_of_lt
      omega
    · exact congrArg (· % 256) (hcont.addrCount.trans hcount)
    · exact hcont.rate.trans hrate
    · exact hcont.dataSize.trans hsize
    · rw [fillDwellPkt, CharField.cstr_copyTerminated _ hterm, hcont.signature]
      exact hx.mirrors.signature
    · exact congrArg (fun bytes => (dwellPktSizeof cfg - cfg.dwellTableSize * 4 + bytes) % 65536)
        (hcont.dataSize.trans hsize)
  | load tbl copied =>
    rw [hop] at hs
    rw [hs.2.1] at hmem
    cases hmem
  | _ =>
    rw [hop] at hs
    rw [hs.2] at hmem
    cases hmem

theorem housekeeping_reports {s : State cfg} (hs : AllStreams Told s)
    (t : TblIndex cfg) : Reports t (s.tblBuffer t) (hkPayload s) := by
  obtain ⟨hcount, hsize, hrate⟩ := Totals.mk.inj (hs t).totals
  refine ⟨?_, hcount, congrArg (· % 65536) hrate, hsize⟩
  have hbit := testBit_memDwellEnableBits (fun u => (hs u).flagged) t
  have hin : (s.dwellTables t).enabled = (s.tblBuffer t).enabled := (hs t).mirrors.enabled
  refine hbit.trans ?_
  rw [← hin]
  constructor
  · rintro ⟨u, hu, he⟩
    exact Fin.ext hu ▸ he
  · exact fun he => ⟨t, rfl, he⟩

theorem run_truthful {m : MemoryMap} {s s' : State cfg} {tr : List (State cfg × Label cfg)}
    (run : Run AnyStep s tr s') {t : TblIndex cfg} (hs : Truthful m (stream s t))
    (hc : EveryStep (fun _ l => Cooperative m l.services l.input) tr) :
    EveryState (fun u => Truthful m (stream u t)) tr s' :=
  run.everyState (P := fun _ l => Cooperative m l.services l.input)
    (I := fun u => Truthful m (stream u t)) (fun _ _ _ hl hx st => step_truthful st hl hx) hs hc

/-- In a run with access to the buffers and updates that are validated and copied, whatever
is sent tells of every table what its buffer holds at this moment. -/
theorem telemetry_tells_buffers {s s' : State cfg} {tr : List (State cfg × Label cfg)}
    (run : Run Step s tr s') (hs : AllStreams Told s)
    (hg : EveryStep (fun _ l => Granting l.services l.input) tr) :
    EveryStep (fun u l =>
      (∀ t pkt, .sendDwell t pkt ∈ l.actions → Describes t (u.tblBuffer t) pkt) ∧
      ∀ p, .sendHk p ∈ l.actions → ∀ t, Reports t (u.tblBuffer t) p) tr := by
  have told : EveryState (AllStreams Told) tr s' :=
    run.everyState (P := fun _ l => Granting l.services l.input)
      (fun _ _ _ hl hx st t => move_told (hx t) (granted_move st.any hl t)) hs hg
  intro q hq
  obtain ⟨v, st⟩ := run.steps q hq
  have hall := told.1 q hq
  constructor
  · exact fun t pkt hp => packet_describes st (hall t) hp
  · rintro p hp t
    rw [step_sendHk st.any hp]
    exact housekeeping_reports hall t

theorem smallServices_cooperative {config : Config} {input : Input config}
    (hn : ∀ msg, input = .message (some msg) → msg.jam.dwellAddress.symName.Terminated)
    (hm : ∀ t calls, input ≠ .manage t calls) :
    Cooperative flatMemory (smallServices config .success) input :=
  ⟨⟨flatMemory_answers config, fun _ _ => rfl, fun msg h _ => hn msg h⟩, fun _ => Or.inl rfl,
    fun t calls h => absurd h (hm t calls)⟩

theorem blankMsg_cooperative (config : Config) (id : MsgId) (fcnCode size : ℕ) :
    Cooperative flatMemory (smallServices config .success)
      (.message (some (blankMsg config id fcnCode size))) := by
  apply smallServices_cooperative
  · intro msg h
    obtain rfl := Option.some.inj (Input.message.inj h)
    exact CharField.zeros_terminated config.path_pos
  · simp

theorem telemetry_tells_buffers_run :
    let config := threeEntries
    let tbl := loadTable config dwellEnabled [loadEntry config 4 1 8]
    let svc := smallServices config .success
    let hk : Input config := .message (some (blankMsg config .sendHk 0 (bareMsgLength config)))
    ∃ s tr s', Started flatMemory.resolver (recoverAll tbl) s ∧ Run Step s tr s' ∧
      tr.map (fun q => Label.call q.2) = [(svc, wakeupMsg config), (svc, hk)] ∧
      EveryStep (fun u l =>
        (∀ t pkt, .sendDwell t pkt ∈ l.actions → Describes t (u.tblBuffer t) pkt) ∧
        ∀ p, .sendHk p ∈ l.actions → ∀ t, Reports t (u.tblBuffer t) p) tr := by
  intro config tbl svc hk
  obtain ⟨s, tr, s', hs, run, hks, -⟩ := flight_run flatMemory.resolver (recoverAll tbl) 9
    (blankState config) [(svc, wakeupMsg config), (svc, hk)] (fun _ _ _ => true)
    (by decide +kernel)
  have accepted : Accepted flatMemory.resolver tbl := by decide +kernel
  have told : AllStreams Told s := by
    intro t
    have truthful : Truthful flatMemory (stream s t) :=
      recovered_truthful (flatMemory_answers config) hs ⟨rfl, rfl, accepted⟩
    exact truthful.toTold
  have granting : EveryStep (fun _ l => Granting l.services l.input) tr := by
    apply everyStep_of_calls hks (P := fun k => Granting k.1 k.2)
    simp only [List.mem_cons, List.not_mem_nil, or_false, forall_eq_or_imp, forall_eq]
    exact ⟨(blankMsg_cooperative config _ _ _).toGranting,
      (blankMsg_cooperative config _ _ _).toGranting⟩
  exact ⟨s, tr, s', hs, run, hks, telemetry_tells_buffers run told granting⟩

/-- A load repairs: from any state at all, a validated table that MD copies is in step with
its buffer from then on, and its packets tell so, as long as the run cooperates; names that
do not end in their fields are not compared. -/
theorem load_repairs {m : MemoryMap} {s₀ s s' : State cfg} {l₀ : Label cfg}
    {tr : List (State cfg × Label cfg)} {t : TblIndex cfg} {tbl : DwellTableLoad cfg}
    (first : Step s₀ l₀ s) (hm : m.Answers cfg l₀.services.toResolver)
    (hop : opOf l₀ t = .load tbl true) (ha : Accepted l₀.services.toResolver tbl)
    (run : Run Step s tr s') (hc : EveryStep (fun _ l => Cooperative m l.services l.input) tr) :
    EveryState (fun u => Truthful m (stream u t)) tr s' ∧
    EveryStep (fun u l =>
      ∀ pkt, .sendDwell t pkt ∈ l.actions → Describes t (u.tblBuffer t) pkt) tr := by
  have hall := run_truthful (run_any run) (load_truthful first.any hm hop ha) hc
  refine ⟨hall, fun q hq pkt hp => ?_⟩
  obtain ⟨v, st⟩ := run.steps q hq
  exact packet_describes st (hall.1 q hq).toTold hp

def pendingUpdate (tbl : DwellTableLoad cfg) : ManageCalls cfg ℕ where
  getStatus w := (.tblInfoUpdatePending, w)
  validate w := (.success, w)
  update w := (.success, w)
  getAddress w := (.tblInfoUpdated, w)
  loaded _ := tbl

def isCopiedLoad : StreamOp cfg → Bool
  | .load _ true => true
  | _ => false

theorem load_repairs_refused :
    let config := threeEntries
    let tbl := loadTable config dwellEnabled [loadEntry config 4 1 8]
    let svc := smallServices config .success
    ∃ s₀ l₀ s tr s', Step s₀ l₀ s ∧ ¬ InStep (flatMemory.inField config) (stream s₀ 0) ∧
      Run Step s tr s' ∧ Label.call l₀ = (svc, .manage 0 (pendingUpdate tbl)) ∧
      tr.map (fun q => Label.call q.2) = [(svc, wakeupMsg config)] ∧
      EveryState (fun u => Truthful flatMemory (stream u 0)) tr s' ∧
      EveryStep (fun u l =>
        ∀ pkt, .sendDwell 0 pkt ∈ l.actions → Describes 0 (u.tblBuffer 0) pkt) tr := by
  intro config tbl svc
  have accepted : Accepted flatMemory.resolver tbl := by decide +kernel
  obtain ⟨-, -, s₀, tr, s', -, -, run, -, hks, hc⟩ := flight_first flatMemory.resolver
    (recoverAll (loadTable config dwellDisabled [])) 9 (blankState config)
    (smallServices config (.error 5), startMsg config 1)
    [(svc, .manage 0 (pendingUpdate tbl)), (svc, wakeupMsg config)]
    (fun _ _ tr _ => tr.head?.any fun q : State config × Label config =>
      isCopiedLoad (opOf q.2 0) &&
        decide ((q.1.dwellTables 0).enabled ≠ (q.1.tblBuffer 0).enabled)) (by decide +kernel)
  obtain ⟨q, tr, rfl⟩ := List.exists_cons_of_ne_nil (show tr ≠ [] by rintro rfl; simp at hks)
  obtain ⟨hq, hwakeup⟩ := List.cons.inj hks
  have run' : Run Step s₀ ([q] ++ tr) s' := run
  obtain ⟨s, hfirst, hrest⟩ := run'.split
  obtain ⟨l₀, hl₀, first⟩ := hfirst.of_length_one (List.length_singleton)
  obtain rfl : q = (s₀, l₀) := List.singleton_inj.mp hl₀
  simp only [List.head?_cons, Option.any_some, Bool.and_eq_true, decide_eq_true_eq] at hc
  obtain ⟨hload, hapart⟩ := hc
  have cooperative : EveryStep (fun _ l => Cooperative flatMemory l.services l.input) tr := by
    apply everyStep_of_calls hwakeup (P := fun k => Cooperative flatMemory k.1 k.2)
    simp only [List.mem_singleton, forall_eq]
    exact blankMsg_cooperative config _ _ _
  have hsvc : l₀.services = svc := congrArg Prod.fst hq
  have hin : l₀.input = .manage 0 (pendingUpdate tbl) := congrArg Prod.snd hq
  have hflat : l₀.services.toResolver = flatMemory.resolver := by rw [hsvc]; rfl
  cases hop : opOf l₀ 0 with
  | load new copied =>
    rw [hop] at hload
    obtain rfl : copied = true := by
      cases copied with
      | true => rfl
      | false => cases hload
    obtain ⟨calls, hcalls, w, -, hnew, -⟩ := exec_load first.1.choose_spec hop
    rw [hin] at hcalls
    obtain ⟨-, rfl⟩ := Input.manage.inj hcalls
    have hacc : Accepted l₀.services.toResolver new := by
      rw [hflat, hnew]
      exact accepted
    have hm : flatMemory.Answers config l₀.services.toResolver :=
      hflat.symm ▸ flatMemory_answers config
    exact ⟨s₀, l₀, s, tr, s', first, fun h => hapart h.enabled, hrest, hq, hwakeup,
      load_repairs first hm hop hacc hrest cooperative⟩
  | _ =>
    rw [hop] at hload
    cases hload

end TruthfulTelemetry
