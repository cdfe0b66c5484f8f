import MemoryDwell.CommandAccounting

/-! # Jams and signatures that fail

A Jam and a SetSignature write the local structure before they ask for the buffer. An
argument that is rejected stops them in time, a refusal of Table Services does not. -/
namespace FailedCommands

open DwellData DwellUtils DwellTbl DwellCmds DwellApp DwellDispatch DwellRuns DwellStreams
open DwellTraces CommandAccounting TransitionRuns

variable {cfg : Config}

def Writes (msg : Message cfg) : Prop :=
  msg.msgId = .cmd ∧ (msg.fcnCode = jamDwellCC ∨ msg.fcnCode = setSignatureCC)

/-- Such a command, counted as an error, leaves its table and the buffer as they were. -/
def FailureKeeps (s : State cfg) (l : Label cfg) : Prop :=
  ∀ msg, l.input = .message (some msg) → Writes msg → ∀ s', Step s l s' →
    s'.errCounter = (s.errCounter + 1) % 256 → ∀ t, Addresses msg t →
      s'.dwellTables t = s.dwellTables t ∧ s'.tblBuffer t = s.tblBuffer t

def jamEntryOf (svc : Services cfg) (p : CmdJamPayload cfg) : DwellControlEntry :=
  if p.fieldLength = 0 then nullControlEntry
  else ⟨p.fieldLength, p.dwellDelay, (resolveSymAddr svc.toResolver 0 p.dwellAddress 0).2⟩

/-- The control structure has the entry or the signature of the command already. -/
structure AlreadyHolds (svc : Services cfg) (msg : Message cfg) (c : DwellPacketControl cfg) :
    Prop where
  jam : msg.fcnCode = jamDwellCC →
    c.entry (msg.jam.entryId.toNat - 1) = jamEntryOf svc msg.jam
  signature : msg.fcnCode = setSignatureCC →
    c.signature.bytes = msg.setSignature.signature.padded

/-- With right arguments, access is granted or there is nothing new to write. -/
def GrantedOrHeld (s : State cfg) (l : Label cfg) : Prop :=
  ∀ msg, l.input = .message (some msg) → Writes msg →
    Dispatchable msg → ArgumentsOk l.services msg → ∀ t, Addresses msg t →
      Granted l.services t ∨ AlreadyHolds l.services msg (s.dwellTables t)

theorem addresses_unique {msg : Message cfg} (hw : Writes msg) {t u : TblIndex cfg}
    (ht : Addresses msg t) (hu : Addresses msg u) : t = u := by
  apply Fin.ext
  rcases hw.2 with h | h
  · rw [addresses_jam h] at ht hu
    omega
  · rw [addresses_sign h] at ht hu
    omega

theorem not_reset {msg : Message cfg} (hw : Writes msg) :
    ¬(Dispatchable msg ∧ msg.fcnCode = resetCntrsCC) := by
  rintro ⟨-, hr⟩
  rcases hw.2 with h | h <;> exact absurd (h.symm.trans hr) (by decide)

section Refused

variable {svc : Services cfg} {msg : Message cfg} {t : TblIndex cfg}

theorem jamWrite_entry {p : CmdJamPayload cfg} (h : JamArgumentsOk svc p) :
    ∃ load, jamWrite svc p = some (jamEntryOf svc p, load) := by
  obtain ⟨⟨new, load⟩, hw⟩ := Option.isSome_iff_exists.mp ((jamWrite_isSome h.table).mpr h)
  refine ⟨load, ?_⟩
  rw [hw]
  by_cases h0 : p.fieldLength = 0
  · rw [jamWrite, if_pos h0] at hw
    split_ifs at hw
    cases hw
    rw [jamEntryOf, if_pos h0]
  · rcases jamWrite_cases hw with ⟨rfl, -⟩ | ⟨a, -, hc, rfl, -⟩
    · obtain ⟨a, hr, hl, hg, he, hd⟩ := h.address h0
      rw [jamWrite, if_neg h0, (jamChecks_ok h0 a).mpr ⟨hr, hl, hg, he, hd⟩] at hw
      split_ifs at hw
      simp only [Option.some.injEq, Prod.mk.injEq] at hw
      exact absurd (congrArg DwellControlEntry.length hw.1) h0
    · rw [jamEntryOf, if_neg h0, ((jamChecks_ok h0 a).mp hc).1]

theorem refused_jam (h : msg.fcnCode = jamDwellCC) (hd : Dispatchable msg)
    (ha : ArgumentsOk svc msg) (ht : Addresses msg t) (hg : ¬ Granted svc t) (s : State cfg) :
    stream (execRequest svc msg s) t =
      { stream s t with
        control := written (s.dwellTables t) (msg.jam.entryId.toNat - 1)
          (jamEntryOf svc msg.jam) } := by
  have hs := execRequest_step svc msg s t
  obtain ⟨load, hw⟩ := jamWrite_entry (ha.jam h)
  rw [cmdOp, if_pos ((wellFormed_iff msg).mpr hd), h] at hs
  simp only [startDwellCC, stopDwellCC, jamDwellCC, jamOp,
    tableIndex_eq_some.mpr ((addresses_jam h).mp ht), hw, hg] at hs
  exact hs.1

theorem refused_sign (h : msg.fcnCode = setSignatureCC) (hd : Dispatchable msg)
    (ha : ArgumentsOk svc msg) (ht : Addresses msg t) (hg : ¬ Granted svc t) (s : State cfg) :
    stream (execRequest svc msg s) t =
      { stream s t with
        control := { s.dwellTables t with
          signature :=
            (s.dwellTables t).signature.copyTerminated msg.setSignature.signature } } := by
  have hs := execRequest_step svc msg s t
  have hterm := (CharField.scanNul_lt_iff _).mpr (ha.signature h).1
  rw [cmdOp, if_pos ((wellFormed_iff msg).mpr hd), h] at hs
  simp only [startDwellCC, stopDwellCC, jamDwellCC, setSignatureCC, signOp, hterm,
    tableIndex_eq_some.mpr ((addresses_sign h).mp ht), hg] at hs
  exact hs.1

/-- A refused command leaves the buffer alone, and writes what it brings. -/
theorem refused_keeps_iff (hw : Writes msg) (hd : Dispatchable msg) (ha : ArgumentsOk svc msg)
    (ht : Addresses msg t) (hg : ¬ Granted svc t) (s : State cfg) :
    (execRequest svc msg s).tblBuffer t = s.tblBuffer t ∧
      ((execRequest svc msg s).dwellTables t = s.dwellTables t ↔
        AlreadyHolds svc msg (s.dwellTables t)) := by
  rcases hw.2 with h | h
  · have hs := refused_jam h hd ha ht hg s
    refine ⟨congrArg Stream.buffer hs, ?_⟩
    rw [show (execRequest svc msg s).dwellTables t = _ from congrArg Stream.control hs]
    constructor
    · intro he
      refine ⟨fun _ => ?_, fun hc => absurd (h.symm.trans hc) (by decide)⟩
      rw [← congrArg DwellPacketControl.entry he]
      exact Function.update_self _ _ _
    · intro hold
      rw [written, ← hold.jam h, Function.update_eq_self]
  · have hs := refused_sign h hd ha ht hg s
    refine ⟨congrArg Stream.buffer hs, ?_⟩
    rw [show (execRequest svc msg s).dwellTables t = _ from congrArg Stream.control hs]
    have hself := CharField.copyTerminated_eq_self_iff (s.dwellTables t).signature
      (ha.signature h).1
    constructor
    · intro he
      exact ⟨fun hc => absurd (h.symm.trans hc) (by decide),
        fun _ => hself.mp (congrArg DwellPacketControl.signature he)⟩
    · intro hold
      rw [hself.mpr (hold.signature h)]

end Refused

theorem failure_keeps_step {s s' : State cfg} {l : Label cfg} (st : Step s l s') :
    FailureKeeps s l ↔ GrantedOrHeld s l := by
  constructor
  · intro hk msg hi hw hd ha t ht
    by_cases hg : Granted l.services t
    · exact Or.inl hg
    · have hs' := step_command st hi hw.1
      have hcount := (execRequest_counted l.services msg s (not_reset hw)).2
        fun h => hg (h.2.2 t ht)
      obtain ⟨hkeep, -⟩ := hk msg hi hw s' st (by rw [hs', hcount.2]) t ht
      rw [hs'] at hkeep
      exact Or.inr ((refused_keeps_iff hw hd ha ht hg s).2.mp hkeep)
  · intro hp msg hi hw s'' st'' herr t ht
    rw [step_command st'' hi hw.1] at herr ⊢
    by_cases hok : Dispatchable msg ∧ ArgumentsOk l.services msg
    · by_cases hg : Granted l.services t
      · have hall : ∀ u, Addresses msg u → Granted l.services u := fun u hu =>
          addresses_unique hw ht hu ▸ hg
        have hcount := (execRequest_counted l.services msg s (not_reset hw)).1
          ⟨hok.1, hok.2, hall⟩
        rw [hcount.2] at herr
        omega
      · obtain ⟨hbuf, hiff⟩ := refused_keeps_iff hw hok.1 hok.2 ht hg s
        have hheld := (hp msg hi hw hok.1 hok.2 t ht).resolve_left hg
        exact ⟨hiff.mpr hheld, hbuf⟩
    · obtain ⟨hc, -, hb⟩ := execRequest_rejected hok s
      exact ⟨congrFun hc t, congrFun hb t⟩

/-- Failed commands change nothing throughout a run exactly when no refused command
brings something new. -/
theorem failures_keep_exact {s₀ s : State cfg} {tr : List (State cfg × Label cfg)}
    (run : Run Step s₀ tr s) : EveryStep FailureKeeps tr ↔ EveryStep GrantedOrHeld tr := by
  induction run with
  | nil => exact iff_of_true everyStep_nil everyStep_nil
  | snoc _ st ih => rw [everyStep_snoc, everyStep_snoc, ih, failure_keeps_step st]

namespace Counterexample

def config : Config := threeEntries

def calls : InitCalls config := recoverAll (loadTable config 1 [loadEntry config 4 1 16])

def jam : Message config :=
  { blankMsg config .cmd jamDwellCC config.jamDwellCmdSize with
    jam := ⟨1, 1, 2, 3, 100, .zeros _⟩ }

def inputs : List (Services config × Input config) :=
  [(smallServices config (.error 1), .message (some jam))]

end Counterexample

/-- A refused Jam is counted as an error, and the local entry is the new one. -/
theorem refused_jam_changes_entry :
    ∃ s₀ tr s, Started flatMemory.resolver Counterexample.calls s₀ ∧ Run Step s₀ tr s ∧
      tr.map (fun q => Label.call q.2) = Counterexample.inputs ∧
      (s₀.dwellTables 0).entry 0 = ⟨4, 1, 16⟩ ∧ (s.dwellTables 0).entry 0 = ⟨2, 3, 100⟩ ∧
      s.errCounter = (s₀.errCounter + 1) % 256 ∧ ¬ EveryStep FailureKeeps tr := by
  obtain ⟨s₀, tr, s, h₀, run, hk, hc⟩ := flight_run flatMemory.resolver Counterexample.calls 10
    (blankState _) Counterexample.inputs
    (fun s₀ _ s => (s₀.dwellTables 0).entry 0 = ⟨4, 1, 16⟩ ∧
      (s.dwellTables 0).entry 0 = ⟨2, 3, 100⟩ ∧ s.errCounter = (s₀.errCounter + 1) % 256)
    (by decide +kernel)
  obtain ⟨hold, hnew, herr⟩ := of_decide_eq_true hc
  refine ⟨s₀, tr, s, h₀, run, hk, hold, hnew, herr, fun hkeep => ?_⟩
  obtain ⟨l, rfl, st⟩ := run.of_length_one
    (by simpa [Counterexample.inputs] using congrArg List.length hk)
  have hi : l.input = .message (some Counterexample.jam) :=
    congrArg Prod.snd (List.singleton_inj.mp hk)
  obtain ⟨hsame, -⟩ := hkeep (s₀, l) (List.mem_singleton.mpr rfl) _ hi ⟨rfl, Or.inl rfl⟩ s st
    herr 0 (Or.inr (Or.inl ⟨rfl, rfl⟩))
  rw [hsame, hold] at hnew
  exact absurd hnew (by decide)

theorem failures_keep_exact_run :
    ∃ s₀ tr s, Started flatMemory.resolver Counterexample.calls s₀ ∧ Run Step s₀ tr s ∧
      tr.map (fun q => Label.call q.2) =
        [(smallServices Counterexample.config .success, .message (some Counterexample.jam))] ∧
      (EveryStep FailureKeeps tr ↔ EveryStep GrantedOrHeld tr) := by
  obtain ⟨s₀, tr, s, h₀, run, hk, -⟩ := flight_run flatMemory.resolver Counterexample.calls 10
    (blankState _) [(smallServices _ .success, .message (some Counterexample.jam))]
    (fun _ _ _ => true) (by decide +kernel)
  exact ⟨s₀, tr, s, h₀, run, hk, failures_keep_exact run⟩

end FailedCommands
