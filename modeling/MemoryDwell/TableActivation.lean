import MemoryDwell.InitialCopies
import MemoryDwell.GroundRequests

/-! # Activated loads

What a call of MD_ManageDwellTable copies is compared with what Table Services installed
and gave out in it. -/
namespace TableActivation

open DwellData DwellUtils DwellTbl DwellPkts DwellApp DwellStreams DwellTraces InitialCopies
open GroundRequests TransitionRuns

variable {cfg : Config}

/-- The stream has the load `tbl` in full, and starts anew if the load is enabled. -/
structure Copied (tbl : DwellTableLoad cfg) (x y : Stream cfg) : Prop where
  buffer : y.buffer = tbl
  pkt : y.pkt = x.pkt
  enabled : y.control.enabled = tbl.enabled
  signature : y.control.signature.cstr = tbl.signature.cstr
  length : ∀ i < cfg.dwellTableSize, (y.control.entry i).length = (tbl.entry i).length
  delay : ∀ i < cfg.dwellTableSize, (y.control.entry i).delay = (tbl.entry i).delay
  totals : summary y.control = readDwellTable tbl
  restarted : tbl.enabled = dwellEnabled →
    y.control.countdown = 1 ∧ y.control.currentEntry = 0 ∧ y.control.pktOffset = 0

/-- The call left everything as it was and a pending load pending; or an update installed
the pending load and its address was not given out, so that only the buffer is new; or
the load was installed and given out, and it is copied, once. -/
inductive Accounted (t : TblIndex cfg) (w : TableServices cfg) (s : State cfg)
    (m : Managed cfg (TableServices cfg)) : Prop where
  | kept : m.world.log = w.log → m.world.active = w.active →
      (∀ tbl, w.pendingLoad = some tbl → m.world.pendingLoad = some tbl) → m.actions = [] →
      (∀ u, stream m.state u = stream s u) → Accounted t w s m
  | unfetched (tbl) : m.world.log = w.log ++ [.update tbl] → m.world.active = tbl →
      (∀ old, w.pendingLoad = some old → old = tbl) → m.actions = [.install t tbl false] →
      (∀ u, stream m.state u = if u = t then { stream s t with buffer := tbl } else stream s u) →
      Accounted t w s m
  | copied (tbl) : m.world.log = w.log ++ [.update tbl, .fetch tbl] → m.world.active = tbl →
      (∀ old, w.pendingLoad = some old → old = tbl) → m.actions = [.install t tbl true] →
      Copied tbl (stream s t) (stream m.state t) → (∀ u ≠ t, stream m.state u = stream s u) →
      Accounted t w s m

theorem Accounted.before {t : TblIndex cfg} {v w : TableServices cfg} {s : State cfg}
    {m : Managed cfg (TableServices cfg)} (h : Accounted t v s m) (hlog : v.log = w.log)
    (hact : v.active = w.active)
    (hload : ∀ tbl, w.pendingLoad = some tbl → v.pendingLoad = some tbl) : Accounted t w s m := by
  cases h with
  | kept hl ha hp hacts hs =>
    exact .kept (hl.trans hlog) (ha.trans hact) (fun tbl h => hp tbl (hload tbl h)) hacts hs
  | unfetched tbl hl ha hp hacts hs =>
    exact .unfetched tbl (hlog ▸ hl) ha (fun old h => hp old (hload old h)) hacts hs
  | copied tbl hl ha hp hacts hc hs =>
    exact .copied tbl (hlog ▸ hl) ha (fun old h => hp old (hload old h)) hacts hc hs

/-- The load fits the local control structure: `Enabled` is `uint16` there, and the copy
of the signature leaves room for a NUL. -/
structure Fits (tbl : DwellTableLoad cfg) : Prop where
  enabled : tbl.enabled < 65536
  signature : tbl.signature.Terminated

theorem copied_iff (r : Resolver) (tbl : DwellTableLoad cfg) (x : Stream cfg) :
    Copied tbl x (install r tbl true x) ↔ Fits tbl := by
  have hc := adopt_contents r tbl x.control
  have he : (adopt r tbl x.control).enabled = tbl.enabled % 65536 := hc.enabled
  have hs : (adopt r tbl x.control).signature =
      x.control.signature.copyTerminated tbl.signature := hc.signature
  constructor
  · intro h
    refine ⟨?_, ?_⟩
    · have := he.symm.trans h.enabled
      omega
    · rw [← CharField.cstr_length_lt_iff, ← h.signature]
      have hpos : 0 < cfg.signatureFieldLength := by have := cfg.signature_min; omega
      exact CharField.cstr_length_lt (hs ▸ CharField.copyTerminated_terminated hpos _ _)
  · rintro ⟨hen, hsig⟩
    refine ⟨rfl, rfl, he.trans (Nat.mod_eq_of_lt hen), ?_, ?_, ?_, ?_, ?_⟩
    · exact (congrArg _ hs).trans (CharField.cstr_copyTerminated _ hsig)
    · intro i hi
      exact (congrArg _ (congrFun hc.entry i)).trans (lengths_copied r tbl x.control hi)
    · intro i hi
      exact (congrArg _ (congrFun hc.entry i)).trans (delays_copied r tbl x.control hi)
    · refine (summary_of_contents hc).trans (summary_update ?_ ?_)
      · exact fun i hi => lengths_copied _ _ _ hi
      · exact fun i hi => delays_copied _ _ _ hi
    · intro h1
      simp [install, adopt, h1, startDwellStream]

theorem stream_adopted (r : Resolver) (tbl : DwellTableLoad cfg) (s : State cfg)
    (t u : TblIndex cfg) :
    stream ((s.setBuffer t tbl).setTable t (adopt r tbl (s.dwellTables t))) u =
      if u = t then install r tbl true (stream s t) else stream s u :=
  stream_install r true

section Turns

variable {sched : Schedule cfg} {w : TableServices cfg} {r : Resolver} {copyFuel fuel : ℕ}
  {t : TblIndex cfg} {s : State cfg} {tbl : DwellTableLoad cfg}

theorem call_answered (answer : TableServices cfg → CFEStatus × TableServices cfg)
    (h : sched.error w.clock = none) : sched.call answer w = answer (sched.arrive w) := by
  rw [Schedule.call, h]

theorem call_failed (answer : TableServices cfg → CFEStatus × TableServices cfg)
    {status : { status : CFEStatus // status.isError = true }}
    (h : sched.error w.clock = some status) :
    sched.call answer w = (status.1, sched.arrive w) := by
  rw [Schedule.call, h]

theorem error_ne (status : { status : CFEStatus // status.isError = true }) :
    status.1 ≠ .success ∧ status.1 ≠ .tblInfoUpdated ∧ status.1 ≠ .tblInfoUpdatePending ∧
      status.1 ≠ .tblInfoValidationPending := by
  obtain ⟨status, h⟩ := status
  refine ⟨?_, ?_, ?_, ?_⟩ <;> rintro rfl <;> cases h

theorem kept_arrive (sched : Schedule cfg) (w : TableServices cfg) (status : CFEStatus)
    {s' : State cfg} (hs : ∀ u, stream s' u = stream s u) :
    Accounted t w s ⟨status, sched.arrive w, s', []⟩ :=
  .kept (arrive_log sched w) (arrive_active sched w) (fun _ h => arrive_load sched w h) rfl hs

theorem Accounted.of_arrive {m : Managed cfg (TableServices cfg)}
    (h : Accounted t (sched.arrive w) s m) : Accounted t w s m :=
  h.before (arrive_log sched w) (arrive_active sched w) fun _ h => arrive_load sched w h

theorem asked_zero : Asked sched w 0 ↔ (sched.arrive w).validationPending = true := by
  rw [arrive_validation]
  simp [Asked]

theorem getStatus_asked (ha : Asked sched w 0) (h0 : sched.error w.clock = none) :
    sched.call getStatus w = (.tblInfoValidationPending, sched.arrive w) := by
  rw [call_answered _ h0, getStatus, if_pos (asked_zero.mp ha)]

theorem getStatus_settled (ha : ¬ Asked sched w 0) (h0 : sched.error w.clock = none) :
    sched.call getStatus w =
      if (sched.arrive w).pendingLoad.isSome then (.tblInfoUpdatePending, sched.arrive w)
      else (.success, sched.arrive w) := by
  rw [call_answered _ h0, getStatus, if_neg (mt asked_zero.mpr ha)]

def installed (sched : Schedule cfg) (w : TableServices cfg) : TableServices cfg :=
  (update (sched.arrive w)).2

theorem installed_eq (sched : Schedule cfg) (h : w.pendingLoad = some tbl) :
    update (sched.arrive w) = (.success, installed sched w) ∧
      (installed sched w).clock = w.clock + 1 ∧ (installed sched w).updated = true ∧
      (installed sched w).active = tbl ∧ (installed sched w).log = w.log ++ [.update tbl] := by
  have hp := arrive_load sched w h
  simp [installed, update, hp]

theorem update_delivers (hp : w.pendingLoad = some tbl) (h0 : sched.error w.clock = none)
    (h1 : sched.error (w.clock + 1) = none) :
    ∃ w', w'.log = w.log ++ [.update tbl, .fetch tbl] ∧ w'.active = tbl ∧
      ∀ copyFuel, updateFromLoad r sched.services copyFuel t w s =
        (copyAndStart r copyFuel t (s.setBuffer t tbl)).map fun s =>
          ⟨.success, w', s, [.install t tbl true]⟩ := by
  obtain ⟨hu, hc, hup, hact, hlog⟩ := installed_eq sched hp
  have hupdate : sched.call update w = (.success, installed sched w) :=
    (call_answered _ h0).trans hu
  have hfetch : (sched.call getAddress (installed sched w)).1 = .tblInfoUpdated ∧
      (sched.call getAddress (installed sched w)).2.log = w.log ++ [.update tbl, .fetch tbl] ∧
      (sched.call getAddress (installed sched w)).2.active = tbl := by
    rw [call_answered _ (hc.symm ▸ h1), getAddress, arrive_updated, if_pos hup]
    simp [hact, hlog]
  refine ⟨_, hfetch.2.1, hfetch.2.2, fun copyFuel => ?_⟩
  simp only [updateFromLoad, Schedule.services, hupdate, if_true, hact, hfetch.1]

theorem update_fails (hp : w.pendingLoad = some tbl)
    (h : sched.error w.clock ≠ none ∨ sched.error (w.clock + 1) ≠ none) :
    ∃ m, Accounted t w s m ∧
      ∀ copyFuel, updateFromLoad r sched.services copyFuel t w s = some m := by
  cases h0 : sched.error w.clock with
  | some status =>
    obtain ⟨hne, -⟩ := error_ne status
    refine ⟨_, kept_arrive sched w status.1 fun _ => rfl, fun copyFuel => ?_⟩
    simp only [updateFromLoad, Schedule.services, call_failed _ h0, hne, if_false]
  | none =>
    obtain ⟨hu, hc, -, hact, hlog⟩ := installed_eq sched hp
    obtain ⟨status, h1⟩ := Option.ne_none_iff_exists'.mp (h.resolve_left (not_not.mpr h0))
    obtain ⟨-, hne, -⟩ := error_ne status
    have hupdate : sched.call update w = (.success, installed sched w) :=
      (call_answered _ h0).trans hu
    have hfetch : sched.call getAddress (installed sched w) =
        (status.1, sched.arrive (installed sched w)) := call_failed _ (hc.symm ▸ h1)
    refine ⟨⟨.success, sched.arrive (installed sched w),
      (s.setBuffer t tbl).sendEvent (.noTblCopyErr (t + 1) status.1), [.install t tbl false]⟩,
      ?_, fun copyFuel => ?_⟩
    · refine .unfetched tbl ?_ ?_ ?_ rfl fun u => ?_
      · simpa using hlog
      · simpa using hact
      · exact fun old hold => Option.some.inj (hold.symm.trans hp)
      · rw [stream_sendEvent, stream_setBuffer]
    · simp only [updateFromLoad, Schedule.services, hupdate, hfetch, if_true, hact, hne, if_false]

theorem turn_validates (ha : Asked sched w 0) (h0 : sched.error w.clock = none)
    (h1 : sched.error (w.clock + 1) = none) :
    manageLoop r sched.services copyFuel t s (fuel + 1) w =
      manageLoop r sched.services copyFuel t s fuel (validated sched w) := by
  have hv : sched.call validate (sched.arrive w) = (.success, validated sched w) :=
    call_answered _ h1
  simp only [manageLoop, Schedule.services, getStatus_asked ha h0, hv, if_true, ne_eq, not_true,
    if_false]

/-- A turn that finds a load and no validation pending goes on with the update. -/
theorem turn_updates (ha : ¬ Asked sched w 0) (h0 : sched.error w.clock = none)
    (hp : (sched.arrive w).pendingLoad = some tbl) :
    manageLoop r sched.services copyFuel t s (fuel + 1) w =
      updateFromLoad r sched.services copyFuel t (sched.arrive w) s := by
  have hg : sched.services.getStatus w = (.tblInfoUpdatePending, sched.arrive w) := by
    apply (getStatus_settled ha h0).trans
    rw [hp]
    rfl
  rw [manageLoop, hg]
  rfl

/-- The turn is the last one, and accounts for what was done in it. -/
def Ends (r : Resolver) (sched : Schedule cfg) (t : TblIndex cfg) (w : TableServices cfg)
    (s : State cfg) : Prop :=
  ∃ m, Accounted t w s m ∧
    ∀ copyFuel fuel, manageLoop r sched.services copyFuel t s (fuel + 1) w = some m

theorem ends_unanswered {status : { status : CFEStatus // status.isError = true }}
    (h0 : sched.error w.clock = some status) : Ends r sched t w s := by
  obtain ⟨-, -, hup, hval⟩ := error_ne status
  have hg : sched.services.getStatus w = (status.1, sched.arrive w) := call_failed _ h0
  refine ⟨⟨_, _, s.sendEvent (.tblStatusErr status.1 (t + 1)), _⟩,
    kept_arrive sched w status.1 fun _ => rfl, fun copyFuel fuel => ?_⟩
  rw [manageLoop, hg]
  simp only [hup, hval, if_false, status.2, if_true]

theorem ends_invalid (ha : Asked sched w 0) (h0 : sched.error w.clock = none)
    {status : { status : CFEStatus // status.isError = true }}
    (h1 : sched.error (w.clock + 1) = some status) : Ends r sched t w s := by
  obtain ⟨hok, -⟩ := error_ne status
  have hv : sched.call validate (sched.arrive w) = (status.1, sched.arrive (sched.arrive w)) :=
    call_failed _ h1
  refine ⟨_, (kept_arrive sched (sched.arrive w) status.1 fun _ => rfl).of_arrive,
    fun copyFuel fuel => ?_⟩
  simp only [manageLoop, Schedule.services, getStatus_asked ha h0, hv, if_true, ne_eq, hok,
    not_false_iff]

theorem ends_idle (ha : ¬ Asked sched w 0) (h0 : sched.error w.clock = none)
    (hp : (sched.arrive w).pendingLoad = none) : Ends r sched t w s := by
  have hg : sched.services.getStatus w = (.success, sched.arrive w) := by
    apply (getStatus_settled ha h0).trans
    rw [hp]
    rfl
  refine ⟨_, kept_arrive sched w .success fun _ => rfl, fun copyFuel fuel => ?_⟩
  rw [manageLoop, hg]
  rfl

theorem ends_unfetched (ha : ¬ Asked sched w 0) (h0 : sched.error w.clock = none)
    (hp : (sched.arrive w).pendingLoad = some tbl)
    (he : sched.error (w.clock + 1) ≠ none ∨ sched.error (w.clock + 2) ≠ none) :
    Ends r sched t w s := by
  obtain ⟨m, hm, hfail⟩ := update_fails (r := r) (t := t) (s := s) (w := sched.arrive w) hp he
  refine ⟨m, hm.of_arrive, fun copyFuel fuel => ?_⟩
  rw [turn_updates ha h0 hp, hfail copyFuel]

/-- A turn validates and goes on, or gets the pending load through, or ends the call. -/
theorem turn_cases (r : Resolver) (sched : Schedule cfg) (t : TblIndex cfg)
    (w : TableServices cfg) (s : State cfg) :
    (Asked sched w 0 ∧ sched.error w.clock = none ∧ sched.error (w.clock + 1) = none) ∨
    (∃ tbl, GetsThrough sched w 0 tbl) ∨ Ends r sched t w s := by
  cases h0 : sched.error w.clock with
  | some status => exact Or.inr (Or.inr (ends_unanswered h0))
  | none =>
    by_cases ha : Asked sched w 0
    · cases h1 : sched.error (w.clock + 1) with
      | none => exact Or.inl ⟨ha, rfl, rfl⟩
      | some status => exact Or.inr (Or.inr (ends_invalid ha h0 h1))
    · cases hp : (sched.arrive w).pendingLoad with
      | none => exact Or.inr (Or.inr (ends_idle ha h0 hp))
      | some tbl =>
        by_cases he : sched.error (w.clock + 1) = none ∧ sched.error (w.clock + 2) = none
        · refine Or.inr (Or.inl ⟨tbl, fun j hj => absurd hj (Nat.not_lt_zero j), ha, hp, ?_⟩)
          intro k hk
          obtain rfl | rfl | rfl : k = 0 ∨ k = 1 ∨ k = 2 := by omega
          · exact h0
          · exact he.1
          · exact he.2
        · exact Or.inr (Or.inr (ends_unfetched ha h0 hp (not_and_or.mp he)))

end Turns

section Loop

variable {sched : Schedule cfg} {w : TableServices cfg} {t : TblIndex cfg} {s : State cfg}

/-- A load that gets through is installed and given out, and then it is for the copy
whether the call returns. -/
theorem loop_delivers (r : Resolver) {i : ℕ} {tbl : DwellTableLoad cfg}
    (h : GetsThrough sched w i tbl) :
    ∃ w', w'.log = w.log ++ [.update tbl, .fetch tbl] ∧ w'.active = tbl ∧
      (∀ old, w.pendingLoad = some old → old = tbl) ∧
      ∀ copyFuel fuel, manageLoop r sched.services copyFuel t s fuel w =
        if i < fuel then
          (copyAndStart r copyFuel t (s.setBuffer t tbl)).map fun s =>
            ⟨.success, w', s, [.install t tbl true]⟩
        else none := by
  induction i generalizing w with
  | zero =>
    obtain ⟨-, ha, hp, he⟩ := h
    obtain ⟨w', hlog, hact, hup⟩ := update_delivers (r := r) (t := t) (s := s)
      (w := sched.arrive w) hp (he 1 (by omega)) (he 2 (by omega))
    refine ⟨w', ?_, hact, ?_, fun copyFuel fuel => ?_⟩
    · rw [hlog, arrive_log]
    · exact fun old hold => Option.some.inj ((arrive_load sched w hold).symm.trans hp)
    · cases fuel with
      | zero => rfl
      | succ fuel =>
        rw [turn_updates ha (he 0 (by omega)) hp, hup copyFuel, if_pos (Nat.succ_pos fuel)]
  | succ i ih =>
    have ha := h.validations 0 (Nat.succ_pos i)
    have h0 := h.answered 0 (by omega)
    have h1 := h.answered 1 (by omega)
    obtain ⟨w', hlog, hact, hold, hloop⟩ := ih ((getsThrough_validated i ha h0 h1).mpr h)
    refine ⟨w', ?_, hact, ?_, fun copyFuel fuel => ?_⟩
    · rw [hlog, validated_log]
    · exact fun old h => hold old (validated_load h)
    · cases fuel with
      | zero => rfl
      | succ fuel =>
        rw [turn_validates ha h0 h1, hloop copyFuel fuel]
        simp only [Nat.add_lt_add_iff_right]

/-- Otherwise the loop ends: it goes on only after a validation that was asked for, and
there are finitely many requests. -/
theorem loop_ends (r : Resolver) (h : ∀ i tbl, ¬ GetsThrough sched w i tbl) :
    ∃ fuel m, Accounted t w s m ∧
      ∀ copyFuel, manageLoop r sched.services copyFuel t s fuel w = some m := by
  obtain ⟨n, hn⟩ := sched.finite
  generalize hk : work n w = k
  induction k using Nat.strong_induction_on generalizing w with
  | h k ih =>
    rcases turn_cases r sched t w s with ⟨ha, h0, h1⟩ | ⟨tbl, hgets⟩ | ⟨m, hm, hends⟩
    · obtain ⟨fuel, m, hm, hloop⟩ := ih _ (hk ▸ work_validated hn ha)
        (fun i tbl hi => h (i + 1) tbl ((getsThrough_validated i ha h0 h1).mp hi)) rfl
      refine ⟨fuel + 1, m, ?_, fun copyFuel => ?_⟩
      · exact hm.before validated_log validated_active fun _ h => validated_load h
      · rw [turn_validates ha h0 h1, hloop copyFuel]
    · exact absurd hgets (h 0 tbl)
    · exact ⟨1, m, hm, fun copyFuel => hends copyFuel 0⟩

/-- The call returns and accounts for its load if that can be copied in full. -/
theorem manage_accounts (r : Resolver)
    (h : ∀ i tbl, GetsThrough sched w i tbl → cfg.dwellTableSize ≤ 255 ∧ Fits tbl) :
    ∃ fuel m, manageDwellTable r sched.services fuel t w s = some m ∧ Accounted t w s m := by
  by_cases hno : ∀ i tbl, ¬ GetsThrough sched w i tbl
  · obtain ⟨fuel, m, hm, hloop⟩ := loop_ends (t := t) (s := s) r hno
    exact ⟨fuel, m, hloop fuel, hm⟩
  · push Not at hno
    obtain ⟨i, tbl, hgets⟩ := hno
    obtain ⟨hn, hfits⟩ := h i tbl hgets
    obtain ⟨w', hlog, hact, hold, hloop⟩ := loop_delivers (t := t) (s := s) r hgets
    refine ⟨i + cfg.dwellTableSize + 1, ⟨.success, w',
      (s.setBuffer t tbl).setTable t (adopt r tbl (s.dwellTables t)), [.install t tbl true]⟩,
      ?_, .copied tbl hlog hact hold rfl ?_ fun u hu => ?_⟩
    · rw [manageDwellTable, hloop, if_pos (by omega), copyAndStart_eq r hn (by omega),
        State.setBuffer_self]
      rfl
    · rw [stream_adopted, if_pos rfl]
      exact (copied_iff r tbl (stream s t)).mpr hfits
    · rw [stream_adopted, if_neg hu]

end Loop

/-- A call returns and accounts for the loads exactly if the one that gets through, where
there is one, fits a table of at most 255 entries. -/
theorem loads_accounted_iff (r : Resolver) (sched : Schedule cfg) (t : TblIndex cfg)
    (w : TableServices cfg) (s : State cfg) :
    (∃ fuel m, manageDwellTable r sched.services fuel t w s = some m ∧ Accounted t w s m) ↔
      ∀ i tbl, GetsThrough sched w i tbl → cfg.dwellTableSize ≤ 255 ∧ Fits tbl := by
  refine ⟨?_, manage_accounts r⟩
  rintro ⟨fuel, m, h, hacc⟩ i tbl hgets
  obtain ⟨w', -, -, -, hloop⟩ := loop_delivers (t := t) (s := s) r hgets
  rw [manageDwellTable, hloop] at h
  split_ifs at h with hi
  rw [Option.map_eq_some_iff] at h
  obtain ⟨s', hs', rfl⟩ := h
  obtain ⟨hn, rfl⟩ := copyAndStart_some hs'
  refine ⟨hn, ?_⟩
  -- The one install tells which account it is.
  cases hacc with
  | kept _ _ _ ha => cases ha
  | unfetched _ _ _ _ ha => cases ha
  | copied _ _ _ _ ha hc =>
    cases ha
    rw [State.setBuffer_self, State.setBuffer_dwellTables, stream_adopted, if_pos rfl] at hc
    exact (copied_iff r tbl (stream s t)).mp hc

namespace Counterexample

def config : Config := manyEntries

def tbl : DwellTableLoad config := loadTable config dwellEnabled []

def quiet : Schedule config := ⟨fun _ => [], fun _ => none, 0, fun _ _ => rfl⟩

def pending : TableServices config := ⟨0, false, some tbl, loadTable config 0 [], false, []⟩

end Counterexample

/-- A valid load of 256 entries is installed and given out, and the call does not return. -/
theorem update_never_returns :
    Accepted flatMemory.resolver Counterexample.tbl ∧
    GetsThrough Counterexample.quiet Counterexample.pending 0 Counterexample.tbl ∧
    ¬∃ fuel m, manageDwellTable flatMemory.resolver Counterexample.quiet.services fuel 0
      Counterexample.pending (blankState _) = some m := by
  have hgets : GetsThrough Counterexample.quiet Counterexample.pending 0 Counterexample.tbl := by
    refine ⟨fun j hj => absurd hj (Nat.not_lt_zero j), ?_, rfl, fun _ _ => rfl⟩
    rw [asked_zero]
    decide
  refine ⟨by decide +kernel, hgets, ?_⟩
  rintro ⟨fuel, m, h⟩
  obtain ⟨w', -, -, -, hloop⟩ := loop_delivers (t := 0) (s := blankState _)
    flatMemory.resolver hgets
  rw [manageDwellTable, hloop, copyAndStart_diverges _ le_rfl] at h
  split_ifs at h
  cases h

end TableActivation
