import MemoryDwell.EntryIndices
import MemoryDwell.PacketProvenance
import MemoryDwell.TableHistories

/-! # Who told MD to read

MD reads memory on behalf of the ground. A table that was not recovered starts without
entries and disabled, so that every read has two causes in the run: the last word on
`Enabled` was to dwell, and the entry is what was last put there. -/
namespace ReadAuthority

open DwellData DwellUtils DwellPkts DwellApp DwellRuns DwellStreams StreamInit DwellTraces
open EntryIndices TableHistories PacketProvenance TransitionRuns Replay

variable {cfg : Config}

def writes (t : TblIndex cfg) (f : Field cfg) (l : Label cfg) : Option f.Working :=
  f.workingWrite l.services.toResolver (opOf l t)

/-- The read that a sample makes has a cause in the steps before it. -/
structure Commanded (svc : Services cfg) (t : TblIndex cfg) (history : List (Label cfg)) (i : ℕ)
    (numBytes : ℕ) (data : Option (ℕ → UInt8)) : Prop where
  index : i < cfg.dwellTableSize
  entry : ∃ e, WrittenLast (writes t (.entry ⟨i, index⟩)) e history ∧ Honest svc t e numBytes data

section Step

variable {svc : Services cfg} {t : TblIndex cfg} {x y : Stream cfg} {acts : List (Action cfg)}
  {op : StreamOp cfg}

theorem acts_enabled (h : StreamStep svc t x acts y op) {a : Action cfg} (ha : a ∈ acts) :
    x.control.enabled = dwellEnabled := by
  cases op with
  | pass =>
    obtain ⟨fuel, p, hp, -, rfl⟩ := h
    rcases dwellTable_cases hp with ⟨-, rfl⟩ | ⟨he, -⟩ | ⟨he, -⟩
    · cases ha
    · exact he
    · exact he
  | load tbl copied =>
    rw [h.2.1] at ha
    cases ha
  | _ =>
    rw [h.2] at ha
    cases ha

theorem acts_indexed (h : StreamStep svc t x acts y op) (hx : InTable x.control) :
    ∀ a ∈ acts, Indexed a := by
  cases op with
  | pass =>
    obtain ⟨fuel, p, hp, -, rfl⟩ := h
    exact pass_indexed hx rfl hp
  | load tbl copied =>
    rw [h.2.1]
    simp
  | _ =>
    rw [h.2]
    simp

end Step

theorem fresh_working {r : Resolver} {calls : InitCalls cfg} {s : State cfg}
    (h : Started r calls s) {t : TblIndex cfg} (fresh : ¬ Recovers r calls t) :
    (s.dwellTables t).enabled = dwellDisabled ∧ ∀ i, ((s.dwellTables t).entry i).length = 0 := by
  rw [started_control h t, if_neg fresh, updateDwellControlInfo_eq]
  exact ⟨rfl, fun _ => rfl⟩

/-- In every run from an initialization that did not recover table `t`: whatever MD reads
or sends for `t`, the last switch of `t` was a Start or a load of an enabled table, and each
read is for an entry that a Jam or a load has put there, of the size and at the address
that it was last given. -/
theorem reads_commanded {r : Resolver} {calls : InitCalls cfg} {s₀ s : State cfg}
    {tr before after : List (State cfg × Label cfg)} {u : State cfg} {l : Label cfg}
    (h₀ : Started r calls s₀) (run : Run AnyStep s₀ tr s) {t : TblIndex cfg}
    (fresh : ¬ Recovers r calls t) (hsplit : tr = before ++ (u, l) :: after) :
    (∀ a ∈ l.actions, actionTable a = some t →
      WrittenLast (writes t .enabled) dwellEnabled (before.map Prod.snd)) ∧
    ∀ i offset numBytes data, .sample t i offset numBytes data ∈ l.actions → numBytes ≠ 0 →
      Commanded l.services t (before.map Prod.snd) i numBytes data := by
  subst hsplit
  obtain ⟨u', earlier, later⟩ := run.split
  obtain rfl : u = u' := later.head
  have held (f : Field cfg) := lastWrite_run (fun s : State cfg => f.working (s.dwellTables t))
    (fun _ _ _ ⟨_, he⟩ => step_working (exec_stream he t) f) earlier
  obtain ⟨v, fuel, he⟩ : ∃ v, AnyStep u l v := later.steps _ List.mem_cons_self
  have hstep := exec_stream he t
  obtain ⟨hoff, hnull⟩ := fresh_working h₀ fresh
  constructor
  · intro a ha hat
    have hmem : a ∈ actionsOf t l.actions := List.mem_filter.mpr ⟨ha, by simpa using hat⟩
    have hon : Field.enabled.working (u.dwellTables t) = dwellEnabled := acts_enabled hstep hmem
    rw [held .enabled] at hon
    rcases lastWrite_cases (writes t .enabled) (Field.enabled.working (s₀.dwellTables t))
      (before.map Prod.snd) with hinit | hlast
    · have hboth : dwellDisabled = dwellEnabled := hoff.symm.trans (hinit.symm.trans hon)
      exact absurd hboth (by decide)
    · exact hon ▸ hlast
  · intro i offset numBytes data ha hlen
    have hmem : .sample t i offset numBytes data ∈ actionsOf t l.actions :=
      List.mem_filter.mpr ⟨ha, by simp [actionTable]⟩
    have htable : InTable (u.dwellTables t) :=
      earlier.invariant (fun _ _ _ hx st => inTable_step st t hx) (inTable_started h₀ t) |>.2
    have hi : i < cfg.dwellTableSize := acts_indexed hstep htable _ hmem
    have honest := step_honest ⟨fuel, he⟩ t i offset numBytes data ha
    have hentry : (u.dwellTables t).entry i = _ := held (.entry ⟨i, hi⟩)
    refine ⟨hi, (u.dwellTables t).entry i, ?_, honest⟩
    rcases lastWrite_cases (writes t (.entry ⟨i, hi⟩))
      ((Field.entry ⟨i, hi⟩).working (s₀.dwellTables t)) (before.map Prod.snd) with hinit | hlast
    · have hzero : ((u.dwellTables t).entry i).length = 0 := by
        rw [hentry]
        exact (congrArg DwellControlEntry.length hinit).trans (hnull i)
      exact absurd (honest.size.trans (by simp [hzero])) hlen
    · rw [hentry]
      exact hlast

theorem reads_commanded_jammed :
    let config := threeEntries
    let fresh : InitCalls config := { recoverAll (loadTable config dwellDisabled []) with
      register := fun _ => .success }
    let svc := smallServices config .success
    let ks := [(svc, jamMsg config 1 1 4 1 16), (svc, startMsg config 1), (svc, wakeupMsg config)]
    ∃ s tr s' before u l after i offset numBytes data, Started flatMemory.resolver fresh s ∧
      Run AnyStep s tr s' ∧ tr.map (fun q => Label.call q.2) = ks ∧
      tr = before ++ (u, l) :: after ∧ .sample 0 i offset numBytes data ∈ l.actions ∧
      WrittenLast (writes 0 .enabled) dwellEnabled (before.map Prod.snd) ∧
      Commanded l.services 0 (before.map Prod.snd) i numBytes data := by
  intro config fresh svc ks
  obtain ⟨s, tr, s', hs, run, hks, hc⟩ := flight_run flatMemory.resolver fresh 9
    (blankState config) ks
    (fun _ tr _ => decide (∃ q ∈ tr, ∃ a ∈ q.2.actions, wroteByte 0 0 a = some 16))
    (by decide +kernel)
  have any : Run AnyStep s tr s' := run_any run
  obtain ⟨⟨u, l⟩, hq, a, ha, hread⟩ := of_decide_eq_true hc
  obtain ⟨before, after, hsplit⟩ := List.append_of_mem hq
  have unrecovered : ¬ Recovers flatMemory.resolver fresh 0 := by decide +kernel
  obtain ⟨hon, hcause⟩ := reads_commanded hs any unrecovered hsplit
  cases a with
  | sample t i offset numBytes data =>
    cases data with
    | none => cases hread
    | some bytes =>
      simp only [wroteByte, Option.ite_none_right_eq_some] at hread
      obtain ⟨⟨rfl, hlo, hhi⟩, -⟩ := hread
      exact ⟨s, tr, s', before, u, l, after, i, offset, numBytes, some bytes, hs, any, hks,
        hsplit, ha, hon _ ha rfl, hcause i offset numBytes _ ha (by omega)⟩
  | _ => cases hread

end ReadAuthority
