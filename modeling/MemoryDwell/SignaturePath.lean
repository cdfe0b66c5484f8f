import MemoryDwell.CollectedBytes
import MemoryDwell.CommandAccounting
import MemoryDwell.TableValidation

/-! # The way of a signature

A signature comes with a command or with a table, is copied into the control structure,
by a command also into the buffer, and from there into each packet that is sent. Every
one of these copies is bounded and terminates the string. The copies of dwell data are not:
one that leaves its packet can reach the signature in a packet behind it. -/
namespace SignaturePath

open DwellData DwellTbl DwellPkts DwellCmds DwellApp DwellDispatch DwellRuns DwellStreams
open StreamInit DwellTraces CollectedBytes CommandAccounting TableValidation TransitionRuns

variable {cfg : Config}

theorem signatureFieldLength_pos (cfg : Config) : 0 < cfg.signatureFieldLength :=
  Nat.zero_lt_of_lt cfg.signature_min

/-- The signature of a control structure after an operation on its stream. -/
def signatureAfter (f : CharField cfg.signatureFieldLength) :
    StreamOp cfg → CharField cfg.signatureFieldLength
  | .sign signature _ => f.copyTerminated signature
  | .load tbl true => f.copyTerminated tbl.signature
  | _ => f

theorem adopt_signature (r : Resolver) (tbl : DwellTableLoad cfg) (c : DwellPacketControl cfg) :
    (adopt r tbl c).signature = c.signature.copyTerminated tbl.signature :=
  (adopt_contents r tbl c).signature

theorem streamStep_signature {svc : Services cfg} {t : TblIndex cfg} {x y : Stream cfg}
    {acts : List (Action cfg)} {op : StreamOp cfg} (h : StreamStep svc t x acts y op) :
    y.control.signature = signatureAfter x.control.signature op := by
  cases op with
  | idle | start granted | stop granted =>
    rw [h.1]
    rfl
  | jam e new load granted =>
    obtain ⟨rfl, -⟩ := h
    cases granted <;> rfl
  | sign signature granted =>
    obtain ⟨rfl, -⟩ := h
    rfl
  | load tbl copied =>
    obtain ⟨rfl, -⟩ := h
    cases copied with
    | true => exact adopt_signature _ _ _
    | false => rfl
  | pass =>
    obtain ⟨fuel, p, hp, rfl, -⟩ := h
    exact (dwellTable_contents hp).signature

@[simp] theorem storeData_signature (pkt : DwellPkt cfg) (offset numBytes : ℕ)
    (data : Option (ℕ → UInt8)) :
    (storeData pkt offset numBytes data).signature = pkt.signature := by
  cases data <;> rfl

theorem fillDwellPkt_terminated (t : TblIndex cfg) (c : DwellPacketControl cfg)
    (pkt : DwellPkt cfg) : (fillDwellPkt t c pkt).signature.Terminated :=
  CharField.copyTerminated_terminated (signatureFieldLength_pos cfg) _ _

theorem dwellTable_terminated {svc : Services cfg} {fuel : ℕ} {t : TblIndex cfg} {p q : Pass cfg}
    (h : dwellTable svc fuel t p = some q) (hp : p.pkt.signature.Terminated) :
    q.pkt.signature.Terminated := by
  apply dwellTable_keeps (I := fun r => r.pkt.signature.Terminated) h hp
  · intro _
    exact fillDwellPkt_terminated t _ _
  · intro _
    exact hp
  · intro r hr _
    rw [dwellStep_pkt]
    split_ifs
    · exact fillDwellPkt_terminated t _ _
    · rwa [storeData_signature]

theorem signatureAfter_terminated {f : CharField cfg.signatureFieldLength} (hf : f.Terminated)
    (op : StreamOp cfg) : (signatureAfter f op).Terminated := by
  have hpos := signatureFieldLength_pos cfg
  cases op with
  | sign signature granted => exact CharField.copyTerminated_terminated hpos _ _
  | load tbl copied =>
    cases copied with
    | true => exact CharField.copyTerminated_terminated hpos _ _
    | false => exact hf
  | _ => exact hf

structure Terminated (x : Stream cfg) : Prop where
  control : x.control.signature.Terminated
  pkt : x.pkt.signature.Terminated

theorem terminated_step {svc : Services cfg} {t : TblIndex cfg} {x y : Stream cfg}
    {acts : List (Action cfg)} {op : StreamOp cfg} (hx : Terminated x)
    (h : StreamStep svc t x acts y op) : Terminated y := by
  constructor
  · rw [streamStep_signature h]
    exact signatureAfter_terminated hx.control op
  · cases op with
    | jam e new load granted =>
      obtain ⟨rfl, -⟩ := h
      cases granted <;> exact hx.pkt
    | pass =>
      obtain ⟨fuel, p, hp, rfl, -⟩ := h
      exact dwellTable_terminated hp hx.pkt
    | _ =>
      rw [h.1]
      exact hx.pkt

theorem terminated_started {r : Resolver} {calls : InitCalls cfg} {s : State cfg}
    (h : Started r calls s) : AllStreams Terminated s := by
  intro t
  have hpos := signatureFieldLength_pos cfg
  have hpkt : ((initMsg cfg).signature.setNul 0).Terminated := by
    obtain ⟨n, hn⟩ := Nat.exists_eq_succ_of_ne_zero hpos.ne'
    simp [CharField.Terminated, CharField.setNul, initMsg, CharField.zeros, hn,
      List.replicate_succ]
  obtain ⟨-, buffer, hs⟩ := started_stream h t
  rw [hs, initStream]
  split_ifs
  · refine ⟨?_, hpkt⟩
    rw [adopt_signature]
    exact CharField.copyTerminated_terminated hpos _ _
  · exact ⟨CharField.zeros_terminated hpos, hpkt⟩

/-- The packets lie one behind the other, with the data last in each: the place of the
signature in packet `u`, counted from the data of packet `t` in front of it. -/
def signaturePlace (t u : TblIndex cfg) : ℕ :=
  (u.val - t.val) * dwellPktSizeof cfg - cfg.signatureFieldLength

/-- What an action leaves of the signature `f` that stands in the memory of packet `u`. -/
def signatureMemory (u : TblIndex cfg) (f : CharField cfg.signatureFieldLength) :
    Action cfg → CharField cfg.signatureFieldLength
  | .sample t _ offset numBytes (some bytes) =>
    if t < u then
      ⟨f.bytes.mapIdx fun i b =>
        let place := signaturePlace t u + i
        if offset ≤ place ∧ place < offset + numBytes then bytes (place - offset) else b,
        by rw [List.length_mapIdx, f.size_eq]⟩
    else f
  | .sendDwell t pkt => if t = u then pkt.signature else f
  | _ => f

theorem dataBytes_le_place {t u : TblIndex cfg} (h : t < u) :
    dataBytes cfg ≤ signaturePlace t u := by
  have hlt : t.val < u.val := h
  have hone : 1 * dwellPktSizeof cfg ≤ (u.val - t.val) * dwellPktSizeof cfg :=
    Nat.mul_le_mul_right _ (by omega)
  rw [signaturePlace]
  simp only [dwellPktSizeof] at hone ⊢
  omega

theorem signatureMemory_sample {u t : TblIndex cfg} {i offset numBytes : ℕ}
    {data : Option (ℕ → UInt8)} (h : ActionDefined (.sample t i offset numBytes data))
    (f : CharField cfg.signatureFieldLength) :
    signatureMemory u f (.sample t i offset numBytes data) = f := by
  cases data with
  | none => rfl
  | some bytes =>
    have hin : offset + numBytes ≤ dataBytes cfg := h.2 rfl
    rw [signatureMemory]
    split_ifs with htu
    · have hplace := dataBytes_le_place htu
      have hkept : ∀ i : ℕ, ¬ (offset ≤ signaturePlace t u + i ∧
          signaturePlace t u + i < offset + numBytes) := by omega
      simp only [hkept]
      congr 1
      exact List.ext_getElem (by simp) (by simp)
    · rfl

theorem signatureMemory_actionsOf {u : TblIndex cfg} {as : List (Action cfg)}
    (h : ∀ a ∈ as, ActionDefined a) (f : CharField cfg.signatureFieldLength) :
    as.foldl (signatureMemory u) f = (actionsOf u as).foldl (signatureMemory u) f := by
  induction as generalizing f with
  | nil => rfl
  | cons a as ih =>
    rw [List.forall_mem_cons] at h
    rw [List.foldl_cons, ih h.2, actionsOf, actionsOf, List.filter_cons]
    split_ifs with ha
    · rw [List.foldl_cons]
    · congr 1
      cases a with
      | sample t i offset numBytes data => exact signatureMemory_sample h.1 f
      | sendDwell t pkt => exact if_neg fun ht => ha (by simp [actionTable, ht])
      | _ => rfl

theorem dwellTable_signature {svc : Services cfg} {fuel : ℕ} {t : TblIndex cfg}
    {c : DwellPacketControl cfg} {pkt : DwellPkt cfg} {q : Pass cfg}
    (h : dwellTable svc fuel t (.start c pkt) = some q) :
    q.actions.foldl (signatureMemory t) pkt.signature = q.pkt.signature := by
  have own : ∀ f i offset numBytes data,
      signatureMemory t f (.sample t i offset numBytes data) = f := by
    rintro f i offset numBytes (_ | bytes)
    · rfl
    · exact if_neg (lt_irrefl t)
  have sent : ∀ f k, signatureMemory t f (.sendDwell t k) = k.signature := fun _ _ => if_pos rfl
  apply dwellTable_keeps
    (I := fun r => r.actions.foldl (signatureMemory t) pkt.signature = r.pkt.signature) h rfl
  · intro _
    simp [sendFullPkt, sendDwellPkt, signatureMemory]
  · intro _
    rfl
  · intro r hr _
    rw [dwellStep_actions, List.foldl_append, hr, List.foldl_cons, own]
    split_ifs with hlast
    · rw [List.foldl_cons, sent, List.foldl_nil]
    · rw [List.foldl_nil, dwellStep_pkt, if_neg hlast, storeData_signature]

/-- In steps that stay inside the packets the signatures in memory are those of the state. -/
theorem signatureMemory_step {s s' : State cfg} {l : Label cfg} (st : Step s l s')
    (t : TblIndex cfg) :
    l.actions.foldl (signatureMemory t) (s.dwellPkt t).signature = (s'.dwellPkt t).signature := by
  rw [signatureMemory_actionsOf st.2]
  have hs := (step_move st t).step
  have other (hnil : actionsOf t l.actions = []) (hpkt : s'.dwellPkt t = s.dwellPkt t) :
      (actionsOf t l.actions).foldl (signatureMemory t) (s.dwellPkt t).signature =
        (s'.dwellPkt t).signature := by
    rw [hnil, hpkt]
    rfl
  cases hop : opOf l t with
  | pass =>
    rw [hop] at hs
    obtain ⟨fuel, p, hp, hy, hacts⟩ := hs
    have hpkt : s'.dwellPkt t = p.pkt := congrArg Stream.pkt hy
    rw [hacts, hpkt]
    exact dwellTable_signature hp
  | load tbl copied =>
    rw [hop] at hs
    have hpkt : s'.dwellPkt t = s.dwellPkt t := congrArg Stream.pkt hs.1
    exact other hs.2.1 hpkt
  | jam e new load granted =>
    rw [hop] at hs
    have hpkt : s'.dwellPkt t = s.dwellPkt t := by
      apply (congrArg Stream.pkt hs.1).trans
      cases granted <;> rfl
    exact other hs.2 hpkt
  | _ =>
    rw [hop] at hs
    have hpkt : s'.dwellPkt t = s.dwellPkt t := congrArg Stream.pkt hs.1
    exact other hs.2 hpkt

/-- The packets of table `t` that a wakeup from `s` sends, also one that never ends, carry
the string `name`. -/
structure Carries (t : TblIndex cfg) (name : List UInt8) (s : State cfg) : Prop where
  wakeup : ∀ svc fuel w, dwellLoop svc fuel s = some w → ∀ pkt, .sendDwell t pkt ∈ w.actions →
    pkt.signature.Terminated ∧ pkt.signature.cstr = name
  sending : ∀ svc last r, Sending svc t (.start (s.dwellTables t) (s.dwellPkt t)) last r →
    (fillDwellPkt t r.control r.pkt).signature.Terminated ∧
      (fillDwellPkt t r.control r.pkt).signature.cstr = name

theorem carries_of_control {t : TblIndex cfg} {name : List UInt8} {s : State cfg}
    (ht : (s.dwellTables t).signature.Terminated) (hn : (s.dwellTables t).signature.cstr = name) :
    Carries t name s := by
  have hsend : ∀ svc last r, Sending svc t (.start (s.dwellTables t) (s.dwellPkt t)) last r →
      (fillDwellPkt t r.control r.pkt).signature.Terminated ∧
        (fillDwellPkt t r.control r.pkt).signature.cstr = name := by
    intro svc last r hr
    have hsig : r.control.signature = (s.dwellTables t).signature :=
      (sending_contents hr).signature
    refine ⟨fillDwellPkt_terminated t _ _, ?_⟩
    rw [fillDwellPkt, hsig, CharField.cstr_copyTerminated _ ht, hn]
  refine ⟨?_, hsend⟩
  intro svc fuel w hw pkt hpkt
  obtain ⟨last, r, hr, rfl⟩ := wakeup_sending hw hpkt
  exact hsend svc last r hr

/-- The step neither sets a signature for the table nor copies a load into it. -/
def Unsigned (l : Label cfg) (t : TblIndex cfg) : Prop :=
  match opOf l t with
  | .sign _ _ | .load _ true => False
  | _ => True

instance (l : Label cfg) (t : TblIndex cfg) : Decidable (Unsigned l t) := by
  unfold Unsigned
  induction opOf l t using StreamOp.byAnswer <;> infer_instance

/-- From `s` on, until the next signature or load comes. -/
def CarriesOn (t : TblIndex cfg) (name : List UInt8) (s : State cfg) : Prop :=
  ∀ tr s', Run Step s tr s' → EveryStep (fun _ l => Unsigned l t) tr →
    EveryState (Carries t name) tr s'

theorem unsigned_signature {l : Label cfg} {t : TblIndex cfg} (h : Unsigned l t)
    (f : CharField cfg.signatureFieldLength) : signatureAfter f (opOf l t) = f := by
  unfold Unsigned at h
  cases hop : opOf l t with
  | sign signature granted =>
    rw [hop] at h
    exact h.elim
  | load tbl copied =>
    rw [hop] at h
    cases copied with
    | true => exact h.elim
    | false => rfl
  | _ => rfl

theorem carriesOn_of_control {t : TblIndex cfg} {name : List UInt8} {s : State cfg}
    (ht : (s.dwellTables t).signature.Terminated) (hn : (s.dwellTables t).signature.cstr = name) :
    CarriesOn t name s := by
  intro tr s' run hu
  have hkeep : EveryState (fun s' : State cfg =>
      (stream s' t).control.signature = (s.dwellTables t).signature) tr s' := by
    apply run.everyState (P := fun _ l => Unsigned l t)
      (I := fun s' => (stream s' t).control.signature = (s.dwellTables t).signature) _ rfl hu
    intro u l v hl hu st
    rw [streamStep_signature (step_move st t).step, unsigned_signature hl, hu]
  apply hkeep.imp
  intro u (hu : (u.dwellTables t).signature = _)
  exact carries_of_control (hu ▸ ht) (hu ▸ hn)

def SetsSignature (l : Label cfg) (p : CmdSetSignaturePayload cfg) : Prop :=
  ∃ msg, l.input = .message (some msg) ∧ msg.msgId = .cmd ∧ Dispatchable msg ∧
    msg.fcnCode = setSignatureCC ∧ msg.setSignature = p

theorem SetsSignature.op {l : Label cfg} {p : CmdSetSignaturePayload cfg}
    (h : SetsSignature l p) (t : TblIndex cfg) : opOf l t = signOp l.services p t := by
  obtain ⟨msg, hi, hid, hd, hcode, rfl⟩ := h
  have hw := (wellFormed_iff msg).mpr hd
  rw [opOf, hi]
  simp only [hid, cmdOp, hw, hcode, if_true]
  rfl

theorem SetsSignature.counted {l : Label cfg} {p : CmdSetSignaturePayload cfg} {s s' : State cfg}
    (h : SetsSignature l p) (st : AnyStep s l s') :
    Counted ((p.signature.Terminated ∧ ∃ t : TblIndex cfg, p.tableId.toNat = t + 1) ∧
      ∀ t : TblIndex cfg, p.tableId.toNat = t + 1 → Granted l.services t) s s' := by
  obtain ⟨msg, hi, hid, hd, hcode, rfl⟩ := h
  rw [anyStep_command st hi hid]
  have hreset : ¬(Dispatchable msg ∧ msg.fcnCode = resetCntrsCC) := by
    rintro ⟨-, hr⟩
    rw [hcode] at hr
    cases hr
  apply (execRequest_counted l.services msg s hreset).congr
  simp only [argumentsOk_sign hcode, addresses_sign hcode, hd, true_and]

theorem refused_iff {l : Label cfg} {p : CmdSetSignaturePayload cfg} {s s' : State cfg}
    (h : SetsSignature l p) (st : AnyStep s l s') :
    Refused s s' ↔ ¬ p.signature.Terminated ∨ (¬∃ t : TblIndex cfg, p.tableId.toNat = t + 1) ∨
      ∃ t : TblIndex cfg, p.tableId.toNat = t + 1 ∧ ¬ Granted l.services t := by
  rw [Counted.refused_iff (h.counted st), not_and_or, not_and_or, or_assoc]
  simp only [not_forall, exists_prop]

theorem validTableEntry_code (r : Resolver) (site : ℕ) (e : TableLoadEntry cfg) :
    validTableEntry r site e ≠ sigLenTblError := by
  simp only [validTableEntry]
  split_ifs <;> decide

theorem validation_signature (r : Resolver) {tbl : DwellTableLoad cfg}
    (h : tbl.signature.Terminated) : (tableValidationFunc r (some tbl)).1 ≠ sigLenTblError := by
  by_cases he : EnabledOk tbl
  · obtain ⟨good, bad, unused, -, hcases⟩ := checkTableEntries_cases r tbl
    rw [(tableValidationFunc_entries he h).1]
    rcases hcases with ⟨hc, -⟩ | ⟨i, -, -, hc, -⟩
    · rw [hc]
      decide
    · rw [hc]
      exact validTableEntry_code r i _
  · rw [tableValidationFunc_enabled he]
    exact (by decide : tblEnaFlagError ≠ sigLenTblError)

structure SignedWith (t : TblIndex cfg) (f : CharField cfg.signatureFieldLength) (s : State cfg) :
    Prop where
  packets : CarriesOn t f.cstr s
  buffer : (s.tblBuffer t).signature.cstr = f.cstr
  valid : ∀ r, (tableValidationFunc r (some (s.tblBuffer t))).1 ≠ sigLenTblError

theorem signedWith_of_accomplished {l : Label cfg} {p : CmdSetSignaturePayload cfg}
    {s s' : State cfg} (h : SetsSignature l p) (st : AnyStep s l s') (ha : Accomplished s s') :
    ∃ t : TblIndex cfg, p.tableId.toNat = t + 1 ∧ SignedWith t p.signature s' := by
  obtain ⟨⟨hterm, t, ht⟩, hg⟩ := (Counted.accomplished_iff (h.counted st)).mp ha
  obtain ⟨fuel, he⟩ := st
  have hpos := signatureFieldLength_pos cfg
  have hs := exec_stream he t
  rw [h.op t, signOp, if_pos ⟨(CharField.scanNul_lt_iff _).mpr hterm, tableIndex_eq_some.mpr ht⟩,
    decide_eq_true (hg t ht)] at hs
  have hc : (s'.dwellTables t).signature =
      (s.dwellTables t).signature.copyTerminated p.signature := streamStep_signature hs
  have hb : (s'.tblBuffer t).signature = (s.tblBuffer t).signature.copyTerminated p.signature :=
    congrArg (fun x : Stream cfg => x.buffer.signature) hs.1
  refine ⟨t, ht, ?_, ?_, ?_⟩
  · apply carriesOn_of_control
    · rw [hc]
      exact CharField.copyTerminated_terminated hpos _ _
    · rw [hc]
      exact CharField.cstr_copyTerminated _ hterm
  · rw [hb]
    exact CharField.cstr_copyTerminated _ hterm
  · intro r
    apply validation_signature
    rw [hb]
    exact CharField.copyTerminated_terminated hpos _ _

theorem carriesOn_of_copied {l : Label cfg} {s s' : State cfg} {t : TblIndex cfg}
    {tbl : DwellTableLoad cfg} (st : AnyStep s l s') (hop : opOf l t = .load tbl true)
    (hterm : tbl.signature.Terminated) : CarriesOn t tbl.signature.cstr s' := by
  obtain ⟨fuel, he⟩ := st
  have hs := exec_stream he t
  rw [hop] at hs
  have hc : (s'.dwellTables t).signature =
      (s.dwellTables t).signature.copyTerminated tbl.signature := streamStep_signature hs
  apply carriesOn_of_control
  · rw [hc]
    exact CharField.copyTerminated_terminated (signatureFieldLength_pos cfg) _ _
  · rw [hc]
    exact CharField.cstr_copyTerminated _ hterm

/-- How signatures are treated from a state on. -/
structure SignaturesTravel (s : State cfg) : Prop where
  terminated : AllStreams Terminated s
  memory : ∀ l s', Step s l s' → ∀ t,
    l.actions.foldl (signatureMemory t) (s.dwellPkt t).signature = (s'.dwellPkt t).signature
  refused : ∀ l s' p, Step s l s' → SetsSignature l p →
    (Refused s s' ↔ ¬ p.signature.Terminated ∨ (¬∃ t : TblIndex cfg, p.tableId.toNat = t + 1) ∨
      ∃ t : TblIndex cfg, p.tableId.toNat = t + 1 ∧ ¬ Granted l.services t)
  set : ∀ l s' p, Step s l s' → SetsSignature l p → Accomplished s s' →
    ∃ t : TblIndex cfg, p.tableId.toNat = t + 1 ∧ SignedWith t p.signature s'
  copied : ∀ l s' t tbl, Step s l s' → opOf l t = .load tbl true → tbl.signature.Terminated →
    CarriesOn t tbl.signature.cstr s'

/-- In a run whose copies stay inside the packets all signatures are terminated, in memory
as in the states, and what is set or copied from then on comes out of the packets. -/
theorem signatures_travel {r : Resolver} {calls : InitCalls cfg} {s₀ s : State cfg}
    {tr : List (State cfg × Label cfg)} (h₀ : Started r calls s₀) (run : Run Step s₀ tr s) :
    EveryState SignaturesTravel tr s := by
  have hterm : EveryState (AllStreams Terminated) tr s := by
    apply run.invariant _ (terminated_started h₀)
    intro u l v hu st t
    exact terminated_step (hu t) (step_move st t).step
  apply hterm.imp
  intro u hu
  exact ⟨hu, fun _ _ st t => signatureMemory_step st t, fun _ _ _ st h => refused_iff h st.any,
    fun _ _ _ st h ha => signedWith_of_accomplished h st.any ha,
    fun _ _ _ _ st hop ht => carriesOn_of_copied st.any hop ht⟩

namespace Counterexample

def config : Config := twoTables

def calls : InitCalls config := recoverAll <|
  loadTable config 0 [loadEntry config 0 0 0, loadEntry config 31 0 0, loadEntry config 4 1 16]

def inputs : List (Services config × Input config) :=
  [(smallServices config .success, jamMsg config 1 1 1 0 16),
    (smallServices config .success, startMsg config 1)]

end Counterexample

/-- The third entry of the first table is copied to the place where the signature of the
second packet stands. -/
theorem copy_overwrites_signature :
    ∃ s₀ tr s l s', Started flatMemory.resolver Counterexample.calls s₀ ∧ Run Step s₀ tr s ∧
      tr.map (fun q => Label.call q.2) = Counterexample.inputs ∧ AnyStep s l s' ∧
      Label.call l = (smallServices _ .success, wakeupMsg _) ∧
      (s.dwellPkt 1).signature.Terminated ∧
      ¬ (l.actions.foldl (signatureMemory 1) (s.dwellPkt 1).signature).Terminated := by
  obtain ⟨s₀, tr, s, h₀, run, hk, hc⟩ := flight_run flatMemory.resolver Counterexample.calls 10
    (blankState _) Counterexample.inputs
    (fun _ _ s => (s.dwellPkt 1).signature.Terminated ∧
      (exec 10 s (smallServices _ .success, wakeupMsg _)).any fun q =>
        ¬ (q.1.actions.foldl (signatureMemory 1) (s.dwellPkt 1).signature).Terminated)
    (by decide +kernel)
  obtain ⟨hterm, hexec⟩ := of_decide_eq_true hc
  obtain ⟨⟨l, s'⟩, he, hnot⟩ := (Option.any_eq_true _ _).mp hexec
  have hcall : (l.services, l.input) = _ := exec_call he
  have st : AnyStep s l s' := ⟨10, by rw [hcall]; exact he⟩
  exact ⟨s₀, tr, s, l, s', h₀, run, hk, st, hcall, hterm, of_decide_eq_true hnot⟩

namespace Signed

def config : Config := threeEntries

def calls : InitCalls config := recoverAll (loadTable config 1 [loadEntry config 4 1 16])

def payload : CmdSetSignaturePayload config := ⟨1, ⟨[65, 66, 0, 67], rfl⟩⟩

def msg : Message config :=
  { blankMsg config .cmd setSignatureCC (config.cmdHeaderSize + 4 + 4) with
    setSignature := payload }

end Signed

/-- A table is signed, and the wakeup that follows sends it. -/
theorem signatures_travel_signed :
    ∃ s₀ l s tr s', Started flatMemory.resolver Signed.calls s₀ ∧ Step s₀ l s ∧
      Run Step s tr s' ∧ SetsSignature l Signed.payload ∧
      tr.map (fun q => Label.call q.2) = [(smallServices _ .success, wakeupMsg _)] ∧
      SignedWith 0 Signed.payload.signature s ∧ Carries 0 [65, 66] s' := by
  obtain ⟨s₀, l, s, tr, s', h₀, st, run, hl, hk, hc⟩ := flight_first flatMemory.resolver
    Signed.calls 10 (blankState _) (smallServices _ .success, .message (some Signed.msg))
    [(smallServices _ .success, wakeupMsg _)]
    (fun _ _ tr _ => EveryStep (fun _ l => Unsigned l 0) tr) (by decide +kernel)
  have hsvc : l.services = smallServices _ .success := congrArg Prod.fst hl
  have hsets : SetsSignature l Signed.payload :=
    ⟨Signed.msg, congrArg Prod.snd hl, rfl, (wellFormed_iff _).mp (by decide +kernel), rfl, rfl⟩
  have hdone : Accomplished s₀ s := by
    apply (Counted.accomplished_iff (hsets.counted st.any)).mpr
    refine ⟨⟨by decide +kernel, 0, rfl⟩, fun _ _ => Or.inl ?_⟩
    rw [hsvc]
    rfl
  obtain ⟨t, ht, hsigned⟩ := (signatures_travel h₀ (.nil s₀)).2.set l s _ st hsets hdone
  obtain rfl : t = 0 := Fin.fin_one_eq_zero t
  exact ⟨s₀, l, s, tr, s', h₀, st, run, hsets, hk, hsigned,
    (hsigned.packets tr s' run (of_decide_eq_true hc)).2⟩

end SignaturePath
