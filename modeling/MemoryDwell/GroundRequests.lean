import MemoryDwell.DwellApp

/-! # Requests from the ground

Table Services as MD_ManageDwellTable meets them: between any two calls the ground may
ask for a validation or activate a load, and any call may fail. -/
namespace GroundRequests

open DwellData DwellApp

variable {cfg : Config}

inductive Request (cfg : Config) where
  | validate
  | activate (tbl : DwellTableLoad cfg)

/-- What happened to the active buffer: a load was installed, its address was given out
with the news. -/
inductive BufferEvent (cfg : Config) where
  | update (tbl : DwellTableLoad cfg)
  | fetch (tbl : DwellTableLoad cfg)

/-- `clock` counts the calls of the application so far. -/
structure TableServices (cfg : Config) where
  clock : ℕ
  validationPending : Bool
  pendingLoad : Option (DwellTableLoad cfg)
  active : DwellTableLoad cfg
  updated : Bool
  log : List (BufferEvent cfg)

/-- The requests that arrive before each call, finitely many of them, and the calls that
fail. -/
structure Schedule (cfg : Config) where
  arrives : ℕ → List (Request cfg)
  error : ℕ → Option { status : CFEStatus // status.isError = true }
  finite : ∃ n, ∀ k, n ≤ k → arrives k = []

/-- An activation is refused while another load is pending. -/
def receive (w : TableServices cfg) : Request cfg → TableServices cfg
  | .validate => { w with validationPending := true }
  | .activate tbl => { w with pendingLoad := w.pendingLoad.or (some tbl) }

def Schedule.arrive (sched : Schedule cfg) (w : TableServices cfg) : TableServices cfg :=
  { (sched.arrives w.clock).foldl receive w with clock := w.clock + 1 }

/-- A call finds what has arrived; one that fails changes nothing. -/
def Schedule.call (sched : Schedule cfg)
    (answer : TableServices cfg → CFEStatus × TableServices cfg) (w : TableServices cfg) :
    CFEStatus × TableServices cfg :=
  match sched.error w.clock with
  | some status => (status.1, sched.arrive w)
  | none => answer (sched.arrive w)

/-- A pending validation is reported before a pending load. -/
def getStatus (w : TableServices cfg) : CFEStatus × TableServices cfg :=
  if w.validationPending = true then (.tblInfoValidationPending, w)
  else if w.pendingLoad.isSome then (.tblInfoUpdatePending, w)
  else (.success, w)

def validate (w : TableServices cfg) : CFEStatus × TableServices cfg :=
  (.success, { w with validationPending := false })

def update (w : TableServices cfg) : CFEStatus × TableServices cfg :=
  match w.pendingLoad with
  | some tbl =>
    (.success, { w with
      pendingLoad := none
      active := tbl
      updated := true
      log := w.log ++ [.update tbl] })
  -- The application updates only what it was told is pending.
  | none => (.info 0, w)

def getAddress (w : TableServices cfg) : CFEStatus × TableServices cfg :=
  if w.updated = true then
    (.tblInfoUpdated, { w with updated := false, log := w.log ++ [.fetch w.active] })
  else (.success, w)

def Schedule.services (sched : Schedule cfg) : ManageCalls cfg (TableServices cfg) where
  getStatus := sched.call getStatus
  validate := sched.call validate
  update := sched.call update
  getAddress := sched.call getAddress
  loaded := TableServices.active

section Arrivals

variable (sched : Schedule cfg) (w : TableServices cfg)

theorem receive_all (l : List (Request cfg)) :
    ((l.foldl receive w).validationPending = true ↔
      w.validationPending = true ∨ Request.validate ∈ l) ∧
    (∀ tbl, w.pendingLoad = some tbl → (l.foldl receive w).pendingLoad = some tbl) ∧
    (l.foldl receive w).active = w.active ∧ (l.foldl receive w).updated = w.updated ∧
    (l.foldl receive w).log = w.log := by
  induction l generalizing w with
  | nil => simp
  | cons q l ih =>
    obtain ⟨hv, hp, ha, hu, hl⟩ := ih (receive w q)
    rw [List.foldl_cons]
    cases q with
    | validate =>
      refine ⟨by rw [hv]; simp [receive], fun tbl h => hp tbl h, ha, hu, hl⟩
    | activate new =>
      refine ⟨by rw [hv]; simp [receive], fun tbl h => hp tbl ?_, ha, hu, hl⟩
      simp [receive, h]

theorem receive_load {v w : TableServices cfg} (h : v.pendingLoad = w.pendingLoad)
    (l : List (Request cfg)) :
    (l.foldl receive v).pendingLoad = (l.foldl receive w).pendingLoad := by
  induction l generalizing v w with
  | nil => exact h
  | cons q l ih =>
    apply ih
    cases q with
    | validate => exact h
    | activate tbl => simp [receive, h]

theorem arrive_validation : (sched.arrive w).validationPending = true ↔
    w.validationPending = true ∨ Request.validate ∈ sched.arrives w.clock :=
  (receive_all w _).1

theorem arrive_load {tbl : DwellTableLoad cfg} (h : w.pendingLoad = some tbl) :
    (sched.arrive w).pendingLoad = some tbl := (receive_all w _).2.1 tbl h

@[simp] theorem arrive_clock : (sched.arrive w).clock = w.clock + 1 := rfl
@[simp] theorem arrive_active : (sched.arrive w).active = w.active := (receive_all w _).2.2.1
@[simp] theorem arrive_updated : (sched.arrive w).updated = w.updated := (receive_all w _).2.2.2.1
@[simp] theorem arrive_log : (sched.arrive w).log = w.log := (receive_all w _).2.2.2.2

theorem arrive_iterate_load {v w : TableServices cfg} (hc : v.clock = w.clock)
    (h : v.pendingLoad = w.pendingLoad) (k : ℕ) :
    (sched.arrive^[k] v).pendingLoad = (sched.arrive^[k] w).pendingLoad := by
  induction k generalizing v w with
  | zero => exact h
  | succ k ih =>
    rw [Function.iterate_succ_apply, Function.iterate_succ_apply]
    apply ih
    · simp [hc]
    · rw [Schedule.arrive, Schedule.arrive, hc]
      exact receive_load h _

end Arrivals

/-- A validation is pending when turn `i` begins, all turns before having validated. -/
def Asked (sched : Schedule cfg) (w : TableServices cfg) (i : ℕ) : Prop :=
  (i = 0 ∧ w.validationPending = true) ∨ Request.validate ∈ sched.arrives (w.clock + 2 * i)

/-- The first turn that finds no validation pending finds the load `tbl`, and no call up
to the one for its address fails. -/
structure GetsThrough (sched : Schedule cfg) (w : TableServices cfg) (i : ℕ)
    (tbl : DwellTableLoad cfg) : Prop where
  validations : ∀ j < i, Asked sched w j
  settled : ¬ Asked sched w i
  pending : (sched.arrive^[2 * i + 1] w).pendingLoad = some tbl
  answered : ∀ k < 2 * i + 3, sched.error (w.clock + k) = none

def validated (sched : Schedule cfg) (w : TableServices cfg) : TableServices cfg :=
  (validate (sched.arrive (sched.arrive w))).2

theorem validated_log {sched : Schedule cfg} {w : TableServices cfg} :
    (validated sched w).log = w.log := by simp [validated, validate]

theorem validated_active {sched : Schedule cfg} {w : TableServices cfg} :
    (validated sched w).active = w.active := by simp [validated, validate]

theorem validated_load {sched : Schedule cfg} {w : TableServices cfg}
    {tbl : DwellTableLoad cfg} (h : w.pendingLoad = some tbl) :
    (validated sched w).pendingLoad = some tbl :=
  arrive_load _ _ (arrive_load _ _ h)

theorem asked_validated (sched : Schedule cfg) (w : TableServices cfg) (i : ℕ) :
    Asked sched (validated sched w) i ↔ Asked sched w (i + 1) := by
  have hc : w.clock + 1 + 1 + 2 * i = w.clock + 2 * (i + 1) := by omega
  simp [Asked, validated, validate, hc]

/-- What may still lead to validations, when no request arrives from call `n` on. -/
def work (n : ℕ) (w : TableServices cfg) : ℕ :=
  2 * (n - w.clock) + if w.validationPending = true then 1 else 0

theorem work_validated {sched : Schedule cfg} {w : TableServices cfg} {n : ℕ}
    (hn : ∀ k, n ≤ k → sched.arrives k = []) (ha : Asked sched w 0) :
    work n (validated sched w) < work n w := by
  have hafter : work n (validated sched w) = 2 * (n - (w.clock + 2)) := rfl
  rw [hafter, work]
  rcases ha with ⟨-, hv⟩ | hreq
  · rw [if_pos hv]
    omega
  · have hlt : w.clock < n := by
      by_contra hno
      rw [hn _ (by omega)] at hreq
      exact absurd hreq List.not_mem_nil
    omega

theorem getsThrough_validated {sched : Schedule cfg} {w : TableServices cfg} (i : ℕ)
    {tbl : DwellTableLoad cfg} (ha : Asked sched w 0) (h0 : sched.error w.clock = none)
    (h1 : sched.error (w.clock + 1) = none) :
    GetsThrough sched (validated sched w) i tbl ↔ GetsThrough sched w (i + 1) tbl := by
  have hload : (sched.arrive^[2 * i + 1] (validated sched w)).pendingLoad =
      (sched.arrive^[2 * (i + 1) + 1] w).pendingLoad := by
    have hshift : sched.arrive^[2 * (i + 1) + 1] w =
        sched.arrive^[2 * i + 1] (sched.arrive (sched.arrive w)) := rfl
    have hsame : (validated sched w).pendingLoad =
        (sched.arrive (sched.arrive w)).pendingLoad := rfl
    have htime : (validated sched w).clock = (sched.arrive (sched.arrive w)).clock := rfl
    rw [hshift]
    exact arrive_iterate_load sched htime hsame _
  have hclock : (validated sched w).clock = w.clock + 2 := rfl
  constructor
  · rintro ⟨hv, hs, hp, he⟩
    refine ⟨?_, fun h => hs ((asked_validated sched w i).mpr h), hload ▸ hp, ?_⟩
    · intro j hj
      cases j with
      | zero => exact ha
      | succ j => exact (asked_validated sched w j).mp (hv j (by omega))
    · intro k hk
      rcases k with _ | _ | k
      · exact h0
      · exact h1
      · have hk' := he k (by omega)
        rwa [hclock, Nat.add_assoc, Nat.add_comm 2 k] at hk'
  · rintro ⟨hv, hs, hp, he⟩
    refine ⟨?_, fun h => hs ((asked_validated sched w i).mp h), hload.trans hp, ?_⟩
    · intro j hj
      exact (asked_validated sched w j).mpr (hv (j + 1) (by omega))
    · intro k hk
      rw [hclock, Nat.add_assoc, Nat.add_comm 2 k]
      exact he (k + 2) (by omega)

end GroundRequests
