import MemoryDwell.DwellTraces

/-! # The working copy

MD keeps the tables twice: as Table Services sees them, with symbolic addresses, and
resolved in its own control structures. Every operation writes both. What a symbolic address
says depends on the bytes behind its name if the name does not end in its field, and then a
Jam of the next entry changes it. -/
namespace WorkingCopy

open DwellData DwellUtils DwellTbl DwellPkts DwellCmds DwellDispatch DwellRuns DwellStreams
open DwellTraces StreamInit TransitionRuns

variable {cfg : Config}

structure Mirrors (x : Stream cfg) : Prop where
  enabled : x.control.enabled = x.buffer.enabled
  signature : x.control.signature.cstr = x.buffer.signature.cstr
  length : ∀ i < cfg.dwellTableSize, (x.control.entry i).length = (x.buffer.entry i).length
  delay : ∀ i < cfg.dwellTableSize, (x.control.entry i).delay = (x.buffer.entry i).delay

/-- The control structure says what the buffer says, its addresses resolved by `r`. -/
structure InStep (r : Resolver) (x : Stream cfg) : Prop extends Mirrors x where
  address : ∀ i < cfg.dwellTableSize, (x.buffer.entry i).length ≠ 0 → ∀ old a,
    resolveSymAddr r i (x.buffer.entry i).dwellAddress old = (true, a) →
      (x.control.entry i).resolvedAddress = a

/-- One symbol table and memory map, strings copied as they are, and terminated names in
Jam commands. -/
structure Environment (m : MemoryMap) (svc : Services cfg) (input : Input cfg) : Prop where
  fixed : m.Answers cfg svc.toResolver
  strings : ∀ name, name.Terminated → (svc.messageStringGet name).cstr = name.cstr
  payload : ∀ msg, input = .message (some msg) → msg.fcnCode = jamDwellCC →
    msg.jam.dwellAddress.symName.Terminated

/-- Access to all buffers, and updates that install validated tables and are announced. -/
structure Granting (svc : Services cfg) (input : Input cfg) : Prop where
  granted : ∀ t, Granted svc t
  updates : ∀ t calls, input = .manage t calls → ∀ w, (calls.update w).1 = .success →
    Accepted svc.toResolver (calls.loaded (calls.update w).2) ∧
      (calls.getAddress (calls.update w).2).1 = .tblInfoUpdated

structure Cooperative (m : MemoryMap) (svc : Services cfg) (input : Input cfg) : Prop
    extends Environment m svc input, Granting svc input

section Operations

variable {r r' : Resolver} {x : Stream cfg} {tbl : DwellTableLoad cfg}

theorem Mirrors.of_contents (h : Mirrors x) {c : DwellPacketControl cfg}
    (hc : SameContents x.control c) (pkt : DwellPkt cfg) :
    Mirrors { x with control := c, pkt := pkt } := by
  constructor
  · rw [hc.enabled, h.enabled]
  · rw [hc.signature, h.signature]
  · rw [hc.entry]
    exact h.length
  · rw [hc.entry]
    exact h.delay

theorem Mirrors.setEnabled (h : Mirrors x) (enabled countdown : ℕ) :
    Mirrors (setEnabled enabled countdown true x) := ⟨rfl, h.signature, h.length, h.delay⟩

theorem Mirrors.setSignature (h : Mirrors x) {signature : CharField cfg.signatureFieldLength}
    (ht : signature.Terminated) : Mirrors (setSignature signature true x) := by
  refine ⟨h.enabled, ?_, h.length, h.delay⟩
  rw [DwellStreams.setSignature, if_pos rfl, CharField.cstr_copyTerminated _ ht,
    CharField.cstr_copyTerminated _ ht]

theorem Mirrors.jamEntry (h : Mirrors x) (e : ℕ) {new : DwellControlEntry}
    {load : TableLoadEntry cfg} (hl : new.length = load.length) (hd : new.delay = load.delay) :
    Mirrors (jamEntry e new load true x) := by
  refine ⟨h.enabled, h.signature, ?_, ?_⟩
  · intro i hi
    by_cases hie : i = e
    · simpa [DwellStreams.jamEntry, written, hie] using hl
    · simpa [DwellStreams.jamEntry, written, hie] using h.length i hi
  · intro i hi
    by_cases hie : i = e
    · simpa [DwellStreams.jamEntry, written, hie] using hd
    · simpa [DwellStreams.jamEntry, written, hie] using h.delay i hi

theorem adopt_mirrors (h : Accepted r tbl) (c : DwellPacketControl cfg) (pkt : DwellPkt cfg) :
    Mirrors ⟨adopt r tbl c, pkt, tbl⟩ := by
  have hsmall : tbl.enabled % 65536 = tbl.enabled := by
    rcases h.enabled with he | he <;> rw [he] <;> rfl
  have hcopy : Mirrors ⟨updateDwellControlInfo (copiedUpTo r tbl c cfg.dwellTableSize),
      pkt, tbl⟩ := by
    constructor
    · exact hsmall
    · exact CharField.cstr_copyTerminated _ h.terminated
    · intro i hi
      exact lengths_copied r tbl c hi
    · intro i hi
      exact delays_copied r tbl c hi
  exact hcopy.of_contents (adopt_contents r tbl c) pkt

theorem InStep.of_contents (h : InStep r x) {c : DwellPacketControl cfg}
    (hc : SameContents x.control c) (pkt : DwellPkt cfg) :
    InStep r { x with control := c, pkt := pkt } := by
  refine ⟨h.toMirrors.of_contents hc pkt, ?_⟩
  rw [hc.entry]
  exact h.address

theorem InStep.setEnabled (h : InStep r x) (enabled countdown : ℕ) :
    InStep r (setEnabled enabled countdown true x) :=
  ⟨h.toMirrors.setEnabled enabled countdown, h.address⟩

theorem InStep.setSignature (h : InStep r x) {signature : CharField cfg.signatureFieldLength}
    (ht : signature.Terminated) : InStep r (setSignature signature true x) :=
  ⟨h.toMirrors.setSignature ht, h.address⟩

theorem adopt_inStep (hr : FoundBy cfg r r') (h : Accepted r' tbl) (c : DwellPacketControl cfg)
    (pkt : DwellPkt cfg) : InStep r ⟨adopt r' tbl c, pkt, tbl⟩ := by
  refine ⟨adopt_mirrors h c pkt, fun i hi _ old a ha => ?_⟩
  rw [(adopt_contents r' tbl c).entry, updateDwellControlInfo_entry]
  simp only [copiedUpTo, if_pos hi]
  exact addrAfter_found hr ha

end Operations

def NoJam (l : Label cfg) (t : TblIndex cfg) : Prop :=
  ∀ e new load granted, opOf l t ≠ .jam e new load granted

/-- A step as a stream lives it when access is granted and updates are announced. -/
inductive GrantedMove (l : Label cfg) (t : TblIndex cfg) (x : Stream cfg) : Stream cfg → Prop where
  | contents {c : DwellPacketControl cfg} (pkt : DwellPkt cfg) (hc : SameContents x.control c)
      (hop : NoJam l t) : GrantedMove l t x { x with control := c, pkt := pkt }
  | switch {enabled countdown : ℕ} (he : enabled = dwellDisabled ∨ enabled = dwellEnabled)
      (hop : NoJam l t) : GrantedMove l t x (setEnabled enabled countdown true x)
  | sign {signature : CharField cfg.signatureFieldLength} (hs : signature.Terminated)
      (hop : NoJam l t) : GrantedMove l t x (setSignature signature true x)
  | jam {e : ℕ} {new : DwellControlEntry} {load : TableLoadEntry cfg}
      (hop : opOf l t = .jam e new load true) : GrantedMove l t x (jamEntry e new load true x)
  | load {tbl : DwellTableLoad cfg} (hop : opOf l t = .load tbl true)
      (ha : Accepted l.services.toResolver tbl) :
      GrantedMove l t x (install l.services.toResolver tbl true x)

theorem granted_move {s s' : State cfg} {l : Label cfg} (st : AnyStep s l s')
    (hg : Granting l.services l.input) (t : TblIndex cfg) :
    GrantedMove l t (stream s t) (stream s' t) := by
  obtain ⟨fuel, h⟩ := st
  have hs := exec_stream h t
  have hsound := opOf_sound l t
  generalize stream s' t = y at hs
  cases hop : opOf l t with
  | idle =>
    rw [hop] at hs
    obtain ⟨rfl, -⟩ := hs
    exact .contents _ (.refl _) (by simp [NoJam, hop])
  | start granted =>
    rw [hop] at hs hsound
    obtain rfl : granted = true := hsound.trans (decide_eq_true (hg.granted t))
    obtain ⟨rfl, -⟩ := hs
    exact .switch (Or.inr rfl) (by simp [NoJam, hop])
  | stop granted =>
    rw [hop] at hs hsound
    obtain rfl : granted = true := hsound.trans (decide_eq_true (hg.granted t))
    obtain ⟨rfl, -⟩ := hs
    exact .switch (Or.inl rfl) (by simp [NoJam, hop])
  | jam e new load granted =>
    rw [hop] at hs hsound
    obtain rfl : granted = true := hsound.1.trans (decide_eq_true (hg.granted t))
    obtain ⟨rfl, -⟩ := hs
    exact .jam hop
  | sign signature granted =>
    rw [hop] at hs hsound
    obtain rfl : granted = true := hsound.1.trans (decide_eq_true (hg.granted t))
    obtain ⟨rfl, -⟩ := hs
    exact .sign hsound.2 (by simp [NoJam, hop])
  | load tbl copied =>
    rw [hop] at hs
    obtain ⟨calls, hi, w, hu, rfl, hcopied⟩ := exec_load h hop
    obtain ⟨hacc, hnews⟩ := hg.updates t calls hi w hu
    obtain rfl : copied = true := hcopied.mpr hnews
    obtain ⟨rfl, -⟩ := hs
    exact .load hop hacc
  | pass =>
    rw [hop] at hs
    obtain ⟨fuel, p, hp, rfl, -⟩ := hs
    exact .contents p.pkt (dwellTable_contents hp) (by simp [NoJam, hop])

theorem opOf_jam_fields {l : Label cfg} {t : TblIndex cfg} {e : ℕ} {new : DwellControlEntry}
    {load : TableLoadEntry cfg} {granted : Bool} (hop : opOf l t = .jam e new load granted) :
    new.length = load.length ∧ new.delay = load.delay := by
  obtain ⟨msg, -, -, hw⟩ := opOf_jam hop
  rcases jamWrite_cases hw with ⟨rfl, rfl⟩ | ⟨a, -, -, rfl, rfl⟩ <;> exact ⟨rfl, rfl⟩

theorem opOf_jam_agrees {m : MemoryMap} {l : Label cfg} {t : TblIndex cfg} {e : ℕ}
    {new : DwellControlEntry} {load : TableLoadEntry cfg} {granted : Bool}
    (env : Environment m l.services l.input) (hop : opOf l t = .jam e new load granted)
    (h0 : load.length ≠ 0) :
    load.dwellAddress.symName.Terminated ∧
      m.resolve load.dwellAddress = some new.resolvedAddress ∧
      Dwellable m load.length new.resolvedAddress := by
  obtain ⟨msg, hi, hcode, hw⟩ := opOf_jam hop
  rcases jamWrite_cases hw with ⟨rfl, rfl⟩ | ⟨a, hlen, hc, rfl, rfl⟩
  · exact absurd rfl h0
  · obtain ⟨behind, hm⟩ := env.fixed
    obtain ⟨hr, hd⟩ := (jamChecks_reader hm hlen a).mp hc
    have hterm := env.payload msg hi hcode
    have hname := env.strings _ hterm
    have hsame : m.resolve ⟨msg.jam.dwellAddress.offset,
        l.services.messageStringGet msg.jam.dwellAddress.symName⟩ =
        m.resolve msg.jam.dwellAddress := resolve_congr m rfl hname
    rw [resolveAt_terminated m _ hterm] at hr
    refine ⟨?_, hsame.trans hr, hd⟩
    rw [← CharField.cstr_length_lt_iff, hname]
    exact CharField.cstr_length_lt hterm

theorem move_mirrors {l : Label cfg} {t : TblIndex cfg} {x y : Stream cfg} (hx : Mirrors x)
    (mv : GrantedMove l t x y) : Mirrors y := by
  cases mv with
  | contents pkt hc => exact hx.of_contents hc pkt
  | switch => exact hx.setEnabled _ _
  | sign hs => exact hx.setSignature hs
  | jam hop =>
    obtain ⟨hl, hd⟩ := opOf_jam_fields hop
    exact hx.jamEntry _ hl hd
  | load hop ha => exact adopt_mirrors ha _ _

/-- As far as names that end in their fields are concerned, the copies stay in step. -/
theorem move_inField {m : MemoryMap} {l : Label cfg} {t : TblIndex cfg} {x y : Stream cfg}
    (env : Environment m l.services l.input) (hx : InStep (m.inField cfg) x)
    (mv : GrantedMove l t x y) : InStep (m.inField cfg) y := by
  have hy := move_mirrors hx.toMirrors mv
  cases mv with
  | contents pkt hc => exact hx.of_contents hc pkt
  | switch => exact hx.setEnabled _ _
  | sign hs => exact hx.setSignature hs
  | @jam e new load hop =>
    refine ⟨hy, fun i hi h0 old a ha => ?_⟩
    by_cases hie : i = e
    · subst hie
      simp only [jamEntry, if_true, Function.update_self] at h0 ha
      obtain ⟨-, hnew, -⟩ := opOf_jam_agrees env hop h0
      have hres := ((inField_found m i _ old a).mp ha).2
      simpa [jamEntry, written] using Option.some.inj (hnew.symm.trans hres)
    · simp only [jamEntry, if_true, Function.update_of_ne hie] at h0 ha
      simpa [jamEntry, written, hie] using hx.address i hi h0 old a ha
  | load hop ha => exact adopt_inStep (inField_foundBy env.fixed) ha _ _

theorem move_namesEnd {m : MemoryMap} {l : Label cfg} {t : TblIndex cfg} {x y : Stream cfg}
    (env : Environment m l.services l.input)
    (hl : ∀ tbl copied, opOf l t = .load tbl copied → NamesEnd tbl) (hx : NamesEnd x.buffer)
    (mv : GrantedMove l t x y) : NamesEnd y.buffer := by
  cases mv with
  | contents => exact hx
  | switch => exact hx
  | sign => exact hx
  | @jam e new load hop =>
    intro i hi h0
    by_cases hie : i = e
    · simp only [jamEntry, if_true, hie, Function.update_self] at h0 ⊢
      exact (opOf_jam_agrees env hop h0).1
    · simp only [jamEntry, if_true, Function.update_of_ne hie] at h0 ⊢
      exact hx i hi h0
  | load hop ha => exact hl _ _ hop

/-- An update reads the names of the table that it installs where they stand. -/
def ReadsInPlace (M : TableMemory cfg) (svc : Services cfg) (input : Input cfg) : Prop :=
  ∀ t calls, input = .manage t calls → ∀ w, (calls.update w).1 = .success →
    svc.toResolver = M.resolverOf (calls.loaded (calls.update w).2)

/-- No accepted Jam of another entry makes an unterminated name read as a symbol with an
address that is not the one of its entry. -/
def NamesKept (M : TableMemory cfg) (l : Label cfg) (t : TblIndex cfg) (x : Stream cfg) : Prop :=
  match opOf l t with
  | .jam e _ load true => ∀ i < cfg.dwellTableSize, i ≠ e → (x.buffer.entry i).length ≠ 0 →
      ¬ (x.buffer.entry i).dwellAddress.symName.Terminated →
      ∀ a ∈ M.resolveAt (M.behind (Function.update x.buffer.entry e load) i)
        (x.buffer.entry i).dwellAddress, (x.control.entry i).resolvedAddress = a
  | _ => True

instance (M : TableMemory cfg) (l : Label cfg) (t : TblIndex cfg) (x : Stream cfg) :
    Decidable (NamesKept M l t x) := by
  unfold NamesKept
  induction opOf l t using StreamOp.byAnswer <;> infer_instance

theorem namesKept_of_end (M : TableMemory cfg) (l : Label cfg) (t : TblIndex cfg)
    {x : Stream cfg} (h : NamesEnd x.buffer) : NamesKept M l t x := by
  rw [NamesKept]
  cases opOf l t using StreamOp.byAnswer with
  | granted e new load => exact fun i hi _ h0 hn => absurd (h i hi h0) hn
  | _ => trivial

theorem namesKept_of_noJam {M : TableMemory cfg} {l : Label cfg} {t : TblIndex cfg}
    (h : NoJam l t) (x : Stream cfg) : NamesKept M l t x := by
  rw [NamesKept]
  cases hop : opOf l t with
  | jam e new load granted => exact absurd hop (h e new load granted)
  | _ => trivial

section InPlace

variable {M : TableMemory cfg} {l : Label cfg} {t : TblIndex cfg} {x y : Stream cfg}

/-- A Jam keeps the two copies in step exactly if it keeps the names of the other entries. -/
theorem jam_inStep_iff (env : Environment M.toMemoryMap l.services l.input)
    (hx : InStep (M.resolverOf x.buffer) x) {e : ℕ} {new : DwellControlEntry}
    {load : TableLoadEntry cfg} (hop : opOf l t = .jam e new load true) :
    InStep (M.resolverOf (jamEntry e new load true x).buffer) (jamEntry e new load true x) ↔
      NamesKept M l t x := by
  obtain ⟨hl, hd⟩ := opOf_jam_fields hop
  simp only [NamesKept, hop]
  constructor
  · intro hy i hi hie h0 _ a ha
    have haddr := hy.address i hi
    simp only [jamEntry, if_true, Function.update_of_ne hie, updateDwellControlInfo_entry,
      written] at haddr
    exact haddr h0 0 a ((reader_found _ _ i _ 0 a).mpr ha)
  · intro hk
    refine ⟨hx.toMirrors.jamEntry e hl hd, fun i hi h0 old a ha => ?_⟩
    by_cases hie : i = e
    · subst hie
      simp only [jamEntry, if_true, Function.update_self] at h0 ha
      obtain ⟨hend, hnew, -⟩ := opOf_jam_agrees env hop h0
      have hres := (reader_found _ _ i _ old a).mp ha
      rw [resolveAt_terminated _ _ hend] at hres
      simpa [jamEntry, written] using Option.some.inj (hnew.symm.trans hres)
    · simp only [jamEntry, if_true, Function.update_of_ne hie] at h0 ha
      have hres := (reader_found _ _ i _ old a).mp ha
      have hkept : (x.control.entry i).resolvedAddress = a := by
        by_cases hend : (x.buffer.entry i).dwellAddress.symName.Terminated
        · apply hx.address i hi h0 old a
          rw [resolveAt_terminated _ _ hend] at hres
          exact (reader_found _ _ i _ old a).mpr ((resolveAt_terminated _ _ hend).trans hres)
        · exact hk i hi hie h0 hend a hres
      simpa [jamEntry, written, hie] using hkept

theorem move_inStep_iff (env : Environment M.toMemoryMap l.services l.input)
    (hl : ∀ tbl, opOf l t = .load tbl true → l.services.toResolver = M.resolverOf tbl)
    (hx : InStep (M.resolverOf x.buffer) x) (mv : GrantedMove l t x y) :
    InStep (M.resolverOf y.buffer) y ↔ NamesKept M l t x := by
  cases mv with
  | contents pkt hc hop => exact iff_of_true (hx.of_contents hc pkt) (namesKept_of_noJam hop x)
  | switch he hop => exact iff_of_true (hx.setEnabled _ _) (namesKept_of_noJam hop x)
  | sign hs hop => exact iff_of_true (hx.setSignature hs) (namesKept_of_noJam hop x)
  | jam hop => exact jam_inStep_iff env hx hop
  | @load tbl hop ha =>
    have hr : FoundBy cfg (M.resolverOf tbl) l.services.toResolver := by
      rw [hl tbl hop]
      exact reader_foundBy _ _
    refine iff_of_true (adopt_inStep hr ha _ _) (namesKept_of_noJam ?_ x)
    simp [NoJam, hop]

end InPlace

/-- A step leaves the working copies in step with the buffers, whose names are read where
they stand, exactly if it keeps every name that does not end in its field; and where all
names end in their fields every step does. -/
theorem step_keeps_in_step_iff {M : TableMemory cfg} {s s' : State cfg} {l : Label cfg}
    {fuel : ℕ} (h : exec fuel s (l.services, l.input) = some (l, s'))
    (hc : Cooperative M.toMemoryMap l.services l.input) (hr : ReadsInPlace M l.services l.input)
    (hs : ∀ t, InStep (M.resolverOf (s.tblBuffer t)) (stream s t)) :
    ((∀ t, InStep (M.resolverOf (s'.tblBuffer t)) (stream s' t)) ↔
      ∀ t, NamesKept M l t (stream s t)) ∧
    ((∀ t, NamesEnd (s.tblBuffer t)) → ∀ t, NamesKept M l t (stream s t)) := by
  refine ⟨forall_congr' fun t => ?_, fun hend t => namesKept_of_end M l t (hend t)⟩
  have hload : ∀ tbl, opOf l t = .load tbl true → l.services.toResolver = M.resolverOf tbl := by
    intro tbl hop
    obtain ⟨calls, hi, w, hu, rfl, -⟩ := exec_load h hop
    exact hr t calls hi w hu
  exact move_inStep_iff hc.toEnvironment hload (hs t) (granted_move ⟨fuel, h⟩ hc.toGranting t)

namespace Counterexample

def config : Config := threeEntries

/-- Names of two characters fill their fields and are read on into the length of the next
entry, low byte first. -/
def memory : TableMemory config where
  symbols name :=
    if name = [65, 66, 4] then some 16 else if name = [65, 66, 1] then some 20 else none
  validRange _ _ := true
  behind entry i :=
    [UInt8.ofNat (entry (i + 1)).length.toNat, UInt8.ofNat ((entry (i + 1)).length.toNat / 256)]
  behind_congr entry entry' i h := by rw [h (i + 1) (Nat.lt_succ_self i)]

def tbl : DwellTableLoad config :=
  loadTable config 0 [⟨4, 1, 0, fullName⟩, loadEntry config 4 1 8]

def services : Services config :=
  { smallServices config .success with toResolver := memory.resolverOf tbl }

theorem services_cooperative {input : Input config}
    (hn : ∀ msg, input = .message (some msg) → msg.jam.dwellAddress.symName.Terminated)
    (hm : ∀ t calls, input ≠ .manage t calls) :
    Cooperative memory.toMemoryMap services input :=
  ⟨⟨⟨_, rfl⟩, fun _ _ => rfl, fun msg h _ => hn msg h⟩, fun _ => Or.inl rfl,
    fun t calls h => absurd h (hm t calls)⟩

theorem jam_cooperative (tableId entryId length delay : UInt16) (offset : ℕ) :
    Cooperative memory.toMemoryMap services
      (jamMsg config tableId entryId length delay offset) := by
  apply services_cooperative
  · intro msg hm
    obtain rfl := Option.some.inj (Input.message.inj hm)
    exact CharField.zeros_terminated config.path_pos
  · simp [jamMsg]

theorem jam_reads_in_place (tableId entryId length delay : UInt16) (offset : ℕ) :
    ReadsInPlace memory services (jamMsg config tableId entryId length delay offset) := by
  intro t calls h
  cases h

theorem recovered_in_step {s : State config}
    (h : Started (memory.resolverOf tbl) (recoverAll tbl) s) (t : TblIndex config) :
    InStep (memory.resolverOf (s.tblBuffer t)) (stream s t) := by
  obtain ⟨-, buffer, hs⟩ := started_stream h t
  have accepted : Accepted (memory.resolverOf tbl) tbl := by decide +kernel
  rw [initStream, if_pos ⟨rfl, rfl, accepted⟩] at hs
  have hb : s.tblBuffer t = tbl := congrArg Stream.buffer hs
  rw [hb, hs]
  exact adopt_inStep (reader_foundBy _ _) accepted _ _

end Counterexample

/-- A Jam of one byte onto the second entry makes the name of the first one another symbol,
with another address in the buffer than in the control structure. -/
theorem jam_moves_name :
    let M := Counterexample.memory
    ∃ s₀ l s fuel,
      Started (M.resolverOf Counterexample.tbl) (recoverAll Counterexample.tbl) s₀ ∧
      exec fuel s₀ (l.services, l.input) = some (l, s) ∧
      Label.call l = (Counterexample.services, jamMsg _ 1 2 1 1 16) ∧
      Cooperative M.toMemoryMap l.services l.input ∧ ReadsInPlace M l.services l.input ∧
      (∀ t, InStep (M.resolverOf (s₀.tblBuffer t)) (stream s₀ t)) ∧
      ¬ ∀ t, InStep (M.resolverOf (s.tblBuffer t)) (stream s t) := by
  intro M
  obtain ⟨s₀, tr, s, h₀, run, hk, hc⟩ := flight_run (M.resolverOf Counterexample.tbl)
    (recoverAll Counterexample.tbl) 10 (blankState _)
    [(Counterexample.services, jamMsg _ 1 2 1 1 16)]
    (fun _ _ s => ((s.dwellTables 0).entry 0).resolvedAddress = 16 ∧
      ((s.tblBuffer 0).entry 0).length ≠ 0 ∧ M.resolveAt (M.behind (s.tblBuffer 0).entry 0)
        ((s.tblBuffer 0).entry 0).dwellAddress = some 20) (by decide +kernel)
  obtain ⟨haddr, hlen, hres⟩ := of_decide_eq_true hc
  obtain ⟨l, rfl, ⟨fuel, he⟩, -⟩ := run.of_length_one (by simpa using congrArg List.length hk)
  have hl : Label.call l = (Counterexample.services, jamMsg _ 1 2 1 1 16) :=
    List.singleton_inj.mp hk
  have hsvc : l.services = Counterexample.services := congrArg Prod.fst hl
  have hin : l.input = jamMsg _ 1 2 1 1 16 := congrArg Prod.snd hl
  refine ⟨s₀, l, s, fuel, h₀, he, hl, ?_, ?_, Counterexample.recovered_in_step h₀, fun h => ?_⟩
  · rw [hsvc, hin]
    exact Counterexample.jam_cooperative _ _ _ _ _
  · rw [hsvc, hin]
    exact Counterexample.jam_reads_in_place _ _ _ _ _
  · have hin := (h 0).address 0 (by decide) hlen 0 20 ((reader_found _ _ 0 _ 0 20).mpr hres)
    exact absurd (haddr.symm.trans hin) (by decide)

theorem step_keeps_in_step_third :
    let M := Counterexample.memory
    ∃ s₀ l s, Started (M.resolverOf Counterexample.tbl) (recoverAll Counterexample.tbl) s₀ ∧
      Step s₀ l s ∧ Label.call l = (Counterexample.services, jamMsg _ 1 3 1 1 16) ∧
      ∀ t, InStep (M.resolverOf (s.tblBuffer t)) (stream s t) := by
  intro M
  obtain ⟨s₀, tr, s, h₀, run, hk, hc⟩ := flight_run (M.resolverOf Counterexample.tbl)
    (recoverAll Counterexample.tbl) 10 (blankState _)
    [(Counterexample.services, jamMsg _ 1 3 1 1 16)]
    (fun _ tr _ => EveryStep (EachStream (NamesKept M)) tr) (by decide +kernel)
  obtain ⟨l, rfl, st⟩ := run.of_length_one (by simpa using congrArg List.length hk)
  have hl : Label.call l = (Counterexample.services, jamMsg _ 1 3 1 1 16) :=
    List.singleton_inj.mp hk
  have hsvc : l.services = Counterexample.services := congrArg Prod.fst hl
  have hin : l.input = jamMsg _ 1 3 1 1 16 := congrArg Prod.snd hl
  have hcoop : Cooperative M.toMemoryMap l.services l.input := by
    rw [hsvc, hin]
    exact Counterexample.jam_cooperative _ _ _ _ _
  have hread : ReadsInPlace M l.services l.input := by
    rw [hsvc, hin]
    exact Counterexample.jam_reads_in_place _ _ _ _ _
  have kept := of_decide_eq_true hc (s₀, l) (List.mem_singleton_self _)
  exact ⟨s₀, l, s, h₀, st, hl, (step_keeps_in_step_iff st.1.choose_spec hcoop hread
    (Counterexample.recovered_in_step h₀)).1.mpr kept⟩

end WorkingCopy
