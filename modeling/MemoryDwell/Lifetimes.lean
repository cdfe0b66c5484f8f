import MemoryDwell.ResetRecovery
import MemoryDwell.TableHistories
import MemoryDwell.TruthfulTelemetry

/-! # Tables across resets

Between two resets the application runs; a reset starts it again, and Table Services hands
it the buffers it had. The tables live through any number of resets as if there had been
none. -/
namespace Lifetimes

open DwellData DwellTbl DwellApp DwellRuns DwellStreams StreamInit DwellTraces WorkingCopy
open ResetRecovery TableHistories TruthfulTelemetry TransitionRuns Replay

variable {cfg : Config}

inductive Event (cfg : Config) where
  | step (l : Label cfg)
  | reset (calls : InitCalls cfg)

/-- Nothing of the old state is read by a restart: what survives comes through `calls`. -/
def Lives (m : MemoryMap) (s : State cfg) : Event cfg → State cfg → Prop
  | .step l, s' => AnyStep s l s'
  | .reset calls, s' => ∃ r, m.Answers cfg r ∧ Started r calls s'

/-- The calls that register the tables give back the buffers of `s`. -/
def HandsBack (calls : InitCalls cfg) (s : State cfg) : Prop :=
  ∀ t, calls.register t = .tblInfoRecoveredTbl ∧ calls.getAddress t = .tblInfoUpdated ∧
    calls.recovered t = s.tblBuffer t

/-- A step that cooperates and loads names that end in their fields, or a reset that hands
back the buffers. -/
def Benign (m : MemoryMap) (s : State cfg) : Event cfg → Prop
  | .step l => Cooperative m l.services l.input ∧
      ∀ t tbl copied, opOf l t = .load tbl copied → NamesEnd tbl
  | .reset calls => HandsBack calls s

/-- No Jam uncovers an invalid entry; a reset jams nothing. -/
def KeepsRecovery (M : TableMemory cfg) (s : State cfg) : Event cfg → Prop
  | .step l => ∀ t e new load, opOf l t = .jam e new load true → load.length ≠ 0 →
    UncoversValid M (s.tblBuffer t) e load
  | .reset _ => True

/-- The table can be recovered, its names end in their fields, and its working copy is one
of the buffer. -/
structure Sound (M : TableMemory cfg) (x : Stream cfg) : Prop where
  accepted : Accepts M x.buffer
  names : NamesEnd x.buffer
  truthful : Truthful M.toMemoryMap x

def eventWrite (f : Field cfg) (t : TblIndex cfg) : Event cfg → Option f.Buffered
  | .step l => f.bufferWrite (opOf l t)
  | .reset _ => none

theorem recovered_buffer {r : Resolver} {calls : InitCalls cfg} {s : State cfg}
    (h : Started r calls s) {t : TblIndex cfg} (hr : Recovers r calls t) :
    s.tblBuffer t = calls.recovered t := by
  obtain ⟨-, buffer, hs⟩ := started_stream h t
  rw [initStream, if_pos hr] at hs
  exact congrArg Stream.buffer hs

theorem recovered_sound {M : TableMemory cfg} {r : Resolver} (hm : M.Answers cfg r)
    {calls : InitCalls cfg} {s : State cfg} (h : Started r calls s) {t : TblIndex cfg}
    (hr : Recovers r calls t) (hn : NamesEnd (calls.recovered t)) : Sound M (stream s t) := by
  have hbuf : (stream s t).buffer = calls.recovered t := recovered_buffer h hr
  refine ⟨?_, ?_, recovered_truthful hm h hr⟩
  · rw [hbuf]
    exact (accepts_iff_accepted hm hn).mpr hr.2.2
  · rw [hbuf]
    exact hn

section Event

variable {M : TableMemory cfg} {s s' : State cfg} {e : Event cfg}

theorem handsBack_recovers {r : Resolver} (hm : M.Answers cfg r) {calls : InitCalls cfg}
    (hb : HandsBack calls s) {t : TblIndex cfg} (hs : Sound M (stream s t)) :
    Recovers r calls t := by
  obtain ⟨hreg, hget, hrec⟩ := hb t
  refine ⟨hreg, hget, ?_⟩
  rw [hrec]
  exact (accepts_iff_accepted hm hs.names).mp hs.accepted

theorem loads_in_place {l : Label cfg} (st : AnyStep s l s')
    (hc : Cooperative M.toMemoryMap l.services l.input) {t : TblIndex cfg}
    (hl : ∀ tbl copied, opOf l t = .load tbl copied → NamesEnd tbl) : LoadsInPlace M l t := by
  obtain ⟨fuel, he⟩ := st
  rw [LoadsInPlace]
  cases hop : opOf l t with
  | load tbl copied =>
    obtain ⟨calls, hi, w, hu, rfl, -⟩ := exec_load he hop
    exact (accepts_iff_accepted hc.fixed (hl _ _ hop)).mpr (hc.updates t calls hi w hu).1
  | _ => trivial

theorem event_sound (hl : Lives M.toMemoryMap s e s') (hb : Benign M.toMemoryMap s e)
    (hs : AllStreams (Sound M) s) : AllStreams (Sound M) s' ↔ KeepsRecovery M s e := by
  cases e with
  | step l =>
    have st : AnyStep s l s' := hl
    obtain ⟨hc, hn⟩ := hb
    have move : ∀ t, Accepts M (s'.tblBuffer t) ↔ RecoveryKept M l t (stream s t) := fun t =>
      accepted_move hc.toEnvironment (loads_in_place st hc (hn t)) (hs t).accepted
        (anyStep_move st t)
    have kept : ∀ t, RecoveryKept M l t (stream s t) ↔ _ := fun t =>
      recoveryKept_of_end (hs t).names
    constructor
    · exact fun h t => (kept t).mp ((move t).mp (h t).accepted)
    · intro h t
      have names := move_namesEnd hc.toEnvironment (hn t) (hs t).names
        (granted_move st hc.toGranting t)
      exact ⟨(move t).mpr ((kept t).mpr (h t)), names, step_truthful st hc (hs t).truthful⟩
  | reset calls =>
    obtain ⟨r, hm, reborn⟩ : ∃ r, M.Answers cfg r ∧ Started r calls s' := hl
    refine iff_of_true (fun t => ?_) trivial
    have names : NamesEnd (calls.recovered t) := by
      rw [(hb t).2.2]
      exact (hs t).names
    exact recovered_sound hm reborn (handsBack_recovers hm hb (hs t)) names

theorem event_buffered (hl : Lives M.toMemoryMap s e s') (hb : Benign M.toMemoryMap s e)
    (hs : AllStreams (Sound M) s) (t : TblIndex cfg) (f : Field cfg) :
    f.buffered (s'.tblBuffer t) = (eventWrite f t e).getD (f.buffered (s.tblBuffer t)) := by
  cases e with
  | step l =>
    obtain ⟨fuel, he⟩ : AnyStep s l s' := hl
    exact step_buffered (exec_stream he t) f
  | reset calls =>
    obtain ⟨r, hm, reborn⟩ : ∃ r, M.Answers cfg r ∧ Started r calls s' := hl
    have hbuf := recovered_buffer reborn (handsBack_recovers hm hb (hs t))
    exact congrArg f.buffered (hbuf.trans (hb t).2.2)

end Event

/-- Over any number of resets, every table can be recovered and is told of truthfully at all
times exactly if no Jam uncovers an invalid entry; then every field holds what the steps
wrote there last. -/
theorem tables_outlive_resets {M : TableMemory cfg} {s s' : State cfg}
    {tr : List (State cfg × Event cfg)} (run : Run (Lives M.toMemoryMap) s tr s')
    (hs : AllStreams (Sound M) s) (hb : EveryStep (Benign M.toMemoryMap) tr) :
    (EveryState (AllStreams (Sound M)) tr s' ↔ EveryStep (KeepsRecovery M) tr) ∧
    (EveryStep (KeepsRecovery M) tr → ∀ (t : TblIndex cfg) (f : Field cfg),
      f.buffered (s'.tblBuffer t) =
        lastWrite (eventWrite f t) (f.buffered (s.tblBuffer t)) (tr.map Prod.snd)) := by
  have exact : EveryState (AllStreams (Sound M)) tr s' ↔ EveryStep (KeepsRecovery M) tr :=
    (run.restrict hb).exact (J := fun _ => True) (I := AllStreams (Sound M))
      (fun _ _ _ _ _ => trivial) (fun _ _ _ hu _ hx st => (event_sound st.2 st.1 hx).mpr hu)
      (fun _ h => h) (fun _ _ _ _ hx st hy => (event_sound st.2 st.1 hx).mp hy) trivial hs
  refine ⟨exact, fun hu t f => ?_⟩
  have sound := exact.mpr hu
  -- A reset keeps the buffers because they are acceptable when it comes.
  have guarded : EveryStep (fun u e => AllStreams (Sound M) u ∧ Benign M.toMemoryMap u e) tr :=
    fun q hq => ⟨sound.1 q hq, hb q hq⟩
  apply lastWrite_run (fun u : State cfg => f.buffered (u.tblBuffer t)) _ (run.restrict guarded)
  rintro u e v ⟨⟨hu, he⟩, hl⟩
  exact event_buffered hl he hu t f

theorem tables_outlive_resets_started :
    let config := threeEntries
    let tbl := loadTable config dwellDisabled [loadEntry config 4 1 8]
    let M := flatTables config
    ∃ s tr s', Started flatMemory.resolver (recoverAll tbl) s ∧
      Run (Lives flatMemory) s tr s' ∧ tr.length = 2 ∧
      (s'.dwellTables 0).enabled = dwellEnabled ∧
      (EveryState (AllStreams (Sound M)) tr s' ↔ EveryStep (KeepsRecovery M) tr) ∧
      (EveryStep (KeepsRecovery M) tr → ∀ (t : TblIndex config) (f : Field config),
        f.buffered (s'.tblBuffer t) =
          lastWrite (eventWrite f t) (f.buffered (s.tblBuffer t)) (tr.map Prod.snd)) := by
  intro config tbl M
  let again (s : State config) : Option (State config) :=
    start flatMemory.resolver (recoverAll (s.tblBuffer 0)) 9 (blankState config)
  obtain ⟨s, tr, s₁, hs, run, hks, hc⟩ := flight_run flatMemory.resolver (recoverAll tbl) 9
    (blankState config) [(smallServices config .success, startMsg config 1)]
    (fun _ _ s₁ => (again s₁).any fun s' => decide ((s'.dwellTables 0).enabled = dwellEnabled))
    (by decide +kernel)
  obtain ⟨s', hagain, hon⟩ := (Option.any_eq_true _ _).mp hc
  have accepted : Accepted flatMemory.resolver tbl := by decide +kernel
  obtain ⟨l, rfl, st⟩ := run.of_length_one (by simpa using congrArg List.length hks)
  have hl : Label.call l = (smallServices config .success, startMsg config 1) :=
    List.singleton_inj.mp hks
  have hsvc : l.services = smallServices config .success := congrArg Prod.fst hl
  have hin : l.input = startMsg config 1 := congrArg Prod.snd hl
  have cooperative : Cooperative flatMemory l.services l.input := by
    rw [hsvc, hin]
    apply smallServices_cooperative
    · intro msg hm
      obtain rfl := Option.some.inj (Input.message.inj hm)
      exact CharField.zeros_terminated config.path_pos
    · simp [startMsg]
  have loads : ∀ t tbl copied, opOf l t = .load tbl copied → NamesEnd tbl := by
    intro t tbl copied hop
    obtain ⟨calls, hmanage, -⟩ := exec_load st.1.choose_spec hop
    rw [hin] at hmanage
    cases hmanage
  have handed : HandsBack (recoverAll (s₁.tblBuffer 0)) s₁ := by
    intro t
    obtain rfl : t = 0 := Subsingleton.elim (α := Fin 1) t 0
    exact ⟨rfl, rfl, rfl⟩
  have sound : AllStreams (Sound M) s := by
    intro t
    have names : NamesEnd tbl := by decide +kernel
    exact recovered_sound (M := M) (flatMemory_answers config) hs ⟨rfl, rfl, accepted⟩ names
  have begun : Lives flatMemory s (.step l) s₁ := st.any
  have reborn : Lives flatMemory s₁ (.reset (recoverAll (s₁.tblBuffer 0))) s' :=
    ⟨_, flatMemory_answers config, start_started hagain⟩
  have lives : Run (Lives flatMemory) s
      [(s, .step l), (s₁, .reset (recoverAll (s₁.tblBuffer 0)))] s' :=
    .snoc (.snoc (.nil s) begun) reborn
  have benign : EveryStep (Benign flatMemory)
      [(s, .step l), (s₁, .reset (recoverAll (s₁.tblBuffer 0)))] := by
    simp only [EveryStep, List.mem_cons, List.not_mem_nil, or_false, forall_eq_or_imp, forall_eq]
    exact ⟨⟨cooperative, loads⟩, handed⟩
  exact ⟨s, _, s', hs, lives, rfl, of_decide_eq_true hon,
    tables_outlive_resets lives sound benign⟩

end Lifetimes
