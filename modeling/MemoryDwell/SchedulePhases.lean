import MemoryDwell.SamplingSchedule

/-! # Streams that are left alone in the middle of a round

A stream that waits for an active entry goes on with its schedule from there, wherever
the commands and loads before have left it: entry, delay and place in the packet. -/
namespace SchedulePhases

open DwellData DwellUtils DwellPkts DwellRuns DwellStreams DwellTurns CyclicSums
open SamplingSchedule DwellTraces FueledLoop TransitionRuns

variable {cfg : Config}

/-- A stream that waits for an active entry. Nothing is said of its place in the packet. -/
structure Waiting (c : DwellPacketControl cfg) : Prop where
  cycling : Cycling c
  enabled : c.enabled = dwellEnabled
  current : c.currentEntry < c.addrCount
  countdown : 1 ≤ c.countdown

instance (c : DwellPacketControl cfg) : Decidable (Waiting c) :=
  decidable_of_iff (Cycling c ∧ c.enabled = dwellEnabled ∧ c.currentEntry < c.addrCount ∧
      1 ≤ c.countdown)
    ⟨fun ⟨hr, he, hc, hw⟩ => ⟨hr, he, hc, hw⟩, fun ⟨hr, he, hc, hw⟩ => ⟨hr, he, hc, hw⟩⟩

/-- Entry `i` is due at wakeup `m`, counted from zero: in the round that is under way
unless its turn is over, and then once in every round. -/
def DueFrom (c : DwellPacketControl cfg) (i m : ℕ) : Prop :=
  i < c.addrCount ∧ ∃ k, m + 1 + delaySum (delays c) c.currentEntry =
    c.countdown + k * c.rate + delaySum (delays c) i ∧ (k = 0 → c.currentEntry ≤ i)

/-- What an action is, without what it carries. -/
inductive Beat where
  | sample (entry : ℕ)
  | packet
  | other
  deriving DecidableEq, Repr

def beatOf : Action cfg → Beat
  | .sample _ entry _ _ _ => .sample entry
  | .sendDwell _ _ => .packet
  | .restart _ _ | .sendHk _ | .install _ _ _ => .other

/-- The beats of turn `g`, with the time of it. -/
def turnBeats (c : DwellPacketControl cfg) (g : ℕ) : List (ℕ × Beat) :=
  (sampleTime c g, .sample (g % c.addrCount)) ::
    if g % c.addrCount + 1 = c.addrCount then [(sampleTime c g, .packet)] else []

def beats (c : DwellPacketControl cfg) (g k : ℕ) : List (ℕ × Beat) :=
  (List.range' g k).flatMap (turnBeats c)

@[simp] theorem beats_zero (c : DwellPacketControl cfg) (g : ℕ) : beats c g 0 = [] := by
  simp [beats]

theorem beats_succ (c : DwellPacketControl cfg) (g k : ℕ) :
    beats c g (k + 1) = beats c g k ++ turnBeats c (g + k) := by
  simp [beats, List.range'_concat]

structure Settled (c : DwellPacketControl cfg) (g w : ℕ) (d : DwellPacketControl cfg) :
    Prop where
  contents : SameContents c d
  current : d.currentEntry = g % c.addrCount
  due : d.countdown + w = sampleTime c g

section Pass

variable {svc : Services cfg} {t : TblIndex cfg} {c d : DwellPacketControl cfg} {g w : ℕ}
  {p q : Pass cfg}

theorem turn_settled (h : Cycling c) (hp : Settled c g w p.control) (hdue : dwellDue p = true) :
    Settled c (g + 1) w (dwellStep svc t c.addrCount p).control := by
  have h0 : p.control.countdown = 0 := by simpa [dwellDue] using hdue
  have htime : w = sampleTime c g := by
    have := hp.due
    omega
  have hn : c.addrCount ≤ 65535 := h.addrCount_le.trans cfg.size_le
  have hi : p.control.currentEntry < c.addrCount := by
    rw [hp.current]
    exact Nat.mod_lt g h.addrCount_pos
  rw [dwellStep_control]
  refine ⟨hp.contents.trans (advance_contents _ _), ?_, ?_⟩
  · rw [advance_currentEntry hn hi, hp.current, succ_mod_eq h.addrCount_pos]
  · rw [advance_countdown, sampleTime_succ, hp.contents.entry, hp.current, htime, Nat.add_comm]

theorem turn_beats (hp : Settled c g w p.control) (hdue : dwellDue p = true) :
    (dwellStep svc t c.addrCount p).actions.map (fun a => (w, beatOf a)) =
      p.actions.map (fun a => (w, beatOf a)) ++ turnBeats c g := by
  have h0 : p.control.countdown = 0 := by simpa [dwellDue] using hdue
  have htime : w = sampleTime c g := by
    have := hp.due
    omega
  rw [dwellStep_actions, List.map_append, hp.current, turnBeats, ← htime]
  split_ifs <;> simp [beatOf]

theorem pass_settled {fuel : ℕ} {pkt : DwellPkt cfg} (h : Cycling c) (he : c.enabled = dwellEnabled)
    (hp : Settled c g w d) (hc : 1 ≤ d.countdown)
    (hpass : dwellTable svc fuel t (.start d pkt) = some q) :
    ∃ k, Settled c (g + k) (w + 1) q.control ∧ 1 ≤ q.control.countdown ∧
      q.actions.map (fun a => (w + 1, beatOf a)) = beats c g k := by
  have hon : d.enabled = dwellEnabled ∧ 0 < d.rate := by
    rw [hp.contents.enabled, hp.contents.rate]
    exact ⟨he, h.rate_pos⟩
  have hcur : d.currentEntry < d.addrCount := by
    rw [hp.current, hp.contents.addrCount]
    exact Nat.mod_lt g h.addrCount_pos
  rw [dwellTable_loop svc fuel t hon hcur, start_control, hp.contents.addrCount] at hpass
  have hfirst : Settled c g (w + 1) (decrement (.start d pkt)).control := by
    refine ⟨hp.contents.trans ⟨rfl, rfl, rfl, rfl, rfl, rfl⟩, hp.current, ?_⟩
    have hdec : (decrement (.start d pkt)).control.countdown = d.countdown - 1 :=
      if_neg (show ¬ d.countdown = 0 by omega)
    have := hp.due
    omega
  obtain ⟨⟨k, hk, hb⟩, hexit⟩ : (∃ k, Settled c (g + k) (w + 1) q.control ∧
      q.actions.map (fun a => (w + 1, beatOf a)) = beats c g k) ∧ dwellDue q = false := by
    apply while_invariant (I := fun p => ∃ k, Settled c (g + k) (w + 1) p.control ∧
      p.actions.map (fun a => (w + 1, beatOf a)) = beats c g k) _
      ⟨0, hfirst, by simp [decrement]⟩ hpass
    rintro p ⟨k, hk, hb⟩ hdue
    refine ⟨k + 1, turn_settled h hk hdue, ?_⟩
    rw [turn_beats hk hdue, hb, beats_succ]
  have h0 : q.control.countdown ≠ 0 := by simpa [dwellDue] using hexit
  exact ⟨k, hk, Nat.one_le_iff_ne_zero.mpr h0, hb⟩

end Pass

/-- After the wakeups `ws`, with turn numbers from `g` on and times that are `late` ahead. -/
structure Followed (c : DwellPacketControl cfg) (t : TblIndex cfg) (g late : ℕ)
    (ws : List (Label cfg)) (k : ℕ) (d : DwellPacketControl cfg) : Prop where
  log : (wakeupLog t ws).map (fun q => (late + q.1, beatOf q.2)) = beats c g k
  settled : Settled c (g + k) (late + ws.length) d
  waiting : 1 ≤ d.countdown

theorem followed_move {c : DwellPacketControl cfg} {t : TblIndex cfg} {g late k : ℕ}
    {ws : List (Label cfg)} {l : Label cfg} {x y : Stream cfg} (h : Cycling c)
    (he : c.enabled = dwellEnabled) (hx : Followed c t g late ws k x.control)
    (hu : Undisturbed l t) (mv : StreamMove l t x y) :
    ∃ k', Followed c t g late (ws ++ [l].filter fun l => isPass (opOf l t)) k' y.control := by
  have hs := mv.step
  simp only [Undisturbed] at hu
  cases hop : opOf l t with
  | idle =>
    rw [hop] at hs
    exact ⟨k, by simpa [hop, isPass, hs.1] using hx⟩
  | pass =>
    rw [hop] at hs
    obtain ⟨fuel, p, hpass, rfl, hacts⟩ := hs
    obtain ⟨k', hk', hcount, hb⟩ := pass_settled h he hx.settled hx.waiting hpass
    refine ⟨k + k', ?_⟩
    simp only [hop, isPass, List.filter_cons_of_pos, List.filter_nil]
    refine ⟨?_, ?_, hcount⟩
    · have htime : late + (ws.length + 1) = late + ws.length + 1 := rfl
      have hnew : ((actionsOf t l.actions).map (Prod.mk (ws.length + 1))).map
          (fun q => (late + q.1, beatOf q.2)) = beats c (g + k) k' := by
        simpa [Function.comp_def, hacts, htime] using hb
      rw [wakeupLog_snoc, List.map_append, hx.log, hnew]
      simp only [beats]
      rw [← List.flatMap_append, List.range'_append_1]
    · simpa [Nat.add_assoc] using hk'
  | _ =>
    rw [hop] at hu
    exact hu.elim

theorem followed_run {c : DwellPacketControl cfg} {t : TblIndex cfg} {g late : ℕ}
    {s s' : State cfg} {tr : List (State cfg × Label cfg)} (h : Cycling c)
    (he : c.enabled = dwellEnabled) (hs : Followed c t g late [] 0 (stream s t).control)
    (run : Run AnyStep s tr s') (alone : EveryStep (fun _ l => Undisturbed l t) tr) :
    ∃ k, Followed c t g late (wakeups t tr) k (stream s' t).control := by
  induction run with
  | nil => exact ⟨0, hs⟩
  | snoc _ st ih =>
    obtain ⟨alone, hu⟩ := everyStep_snoc.mp alone
    obtain ⟨k, hk⟩ := ih alone
    obtain ⟨k', hk'⟩ := followed_move h he hk hu (anyStep_move st t)
    exact ⟨k', by simpa [wakeups] using hk'⟩

/-- The pass of table `t` in a wakeup that memory answers as `svc` says. -/
def PassEnds (svc : Services cfg) (t : TblIndex cfg) (x : Stream cfg) : Prop :=
  ∃ fuel q, dwellTable svc fuel t (.start x.control x.pkt) = some q

theorem Followed.passEnds {c : DwellPacketControl cfg} {t : TblIndex cfg} {g late k : ℕ}
    {ws : List (Label cfg)} {x : Stream cfg} (h : Cycling c)
    (hx : Followed c t g late ws k x.control) (svc : Services cfg) : PassEnds svc t x := by
  obtain ⟨i, hi, hd⟩ := h.delay
  have hdriven : WakeupEnds.Driven c :=
    ⟨h.addrCount_le, fun _ => ⟨i, hi, fun h0 => hd (by rw [delays, h0]; rfl)⟩⟩
  exact WakeupEnds.dwellTable_ends svc t (hdriven.of_contents hx.settled.contents) x.pkt

/-- A wakeup gets past the stream, so that it ends if it gets past the others. -/
theorem wakeup_ends_iff {s : State cfg} {svc : Services cfg} {t : TblIndex cfg}
    (ht : PassEnds svc t (stream s t)) :
    (∃ fuel w, dwellLoop svc fuel s = some w) ↔ ∀ u ≠ t, PassEnds svc u (stream s u) := by
  constructor
  · rintro ⟨fuel, w, hw⟩ u -
    obtain ⟨p, hp, -⟩ := dwellLoop_stream hw u
    exact ⟨fuel, p, hp⟩
  · intro h
    apply dwellLoop_total
    intro u
    by_cases hu : u = t
    · exact hu ▸ ht
    · exact h u hu

/-- A stream that waits has as many turns behind it as one that has gone around
`countdown` times, so that its next turn lies in the future of an imagined start. -/
theorem Waiting.followed {c : DwellPacketControl cfg} (h : Waiting c) (t : TblIndex cfg) :
    ∃ late, Followed c t (c.countdown * c.addrCount + c.currentEntry) late [] 0 c ∧
      late + c.countdown =
        1 + (c.countdown * c.rate + delaySum (delays c) c.currentEntry) := by
  have htime := h.cycling.sampleTime_eq h.current.le c.countdown
  have hle : c.countdown ≤ c.countdown * c.rate := Nat.le_mul_of_pos_right _ h.cycling.rate_pos
  refine ⟨1 + (c.countdown * c.rate + delaySum (delays c) c.currentEntry) - c.countdown,
    ⟨by simp [wakeupLog], ⟨SameContents.refl c, ?_, ?_⟩, h.countdown⟩, by omega⟩
  · rw [Nat.add_zero, Nat.add_comm, Nat.add_mul_mod_self_right, Nat.mod_eq_of_lt h.current]
  · rw [Nat.add_zero, htime, List.length_nil]
    omega

theorem Followed.countP {c d : DwellPacketControl cfg} {t : TblIndex cfg} {g late k m : ℕ}
    {ws : List (Label cfg)} {l : Label cfg} (hx : Followed c t g late ws k d)
    (hl : ws[m]? = some l) {p : Action cfg → Bool} {b : Beat}
    (hp : ∀ a, p a = true ↔ actionTable a = some t ∧ beatOf a = b) :
    l.actions.countP p = (beats c g k).countP (fun q => q == (late + (m + 1), b)) := by
  have htable : ∀ q ∈ wakeupLog t ws, actionTable q.2 = some t := by
    intro q hq
    obtain ⟨r, -, hq⟩ := List.mem_flatMap.mp hq
    obtain ⟨a, ha, rfl⟩ := List.mem_map.mp hq
    simpa [actionsOf] using (List.mem_filter.mp ha).2
  rw [wakeupLog_countP hl fun a ha => ((hp a).mp ha).1, ← hx.log, List.countP_map]
  apply List.countP_congr
  intro q hq
  have hb : p q.2 = true ↔ beatOf q.2 = b := by simp [hp, htable q hq]
  simp [hb]

theorem turn_count {c : DwellPacketControl cfg} (h : Cycling c) {g k T i : ℕ}
    (hT : T < sampleTime c (g + k)) :
    ((∃ j ≥ g, sampleTime c j = T ∧ j % c.addrCount = i) →
      (List.range' g k).countP (fun j => sampleTime c j == T && j % c.addrCount == i) = 1) ∧
    ((¬ ∃ j ≥ g, sampleTime c j = T ∧ j % c.addrCount = i) →
      (List.range' g k).countP (fun j => sampleTime c j == T && j % c.addrCount == i) = 0) := by
  constructor
  · rintro ⟨j, hj, ht, hi⟩
    have hlt : j < g + k := by
      by_contra hn
      have := sampleTime_mono c (Nat.le_of_not_lt hn)
      omega
    have hone : ∀ j', (sampleTime c j' == T && j' % c.addrCount == i) = true ↔
        (j' == j) = true := by
      intro j'
      simp only [Bool.and_eq_true, beq_iff_eq]
      constructor
      · rintro ⟨ht', hi'⟩
        exact h.sampleTime_injective (hi'.trans hi.symm) (ht'.trans ht.symm)
      · rintro rfl
        exact ⟨ht, hi⟩
    rw [List.countP_congr fun j' _ => hone j', ← List.count_eq_countP]
    exact List.count_eq_one_of_mem List.nodup_range' (List.mem_range'_1.mpr ⟨hj, hlt⟩)
  · intro hn
    rw [List.countP_eq_zero]
    intro j hj hp
    simp only [Bool.and_eq_true, beq_iff_eq] at hp
    exact hn ⟨j, (List.mem_range'_1.mp hj).1, hp⟩

theorem Waiting.turn_iff {c : DwellPacketControl cfg} (h : Waiting c) {late i m : ℕ}
    (hlate : late + c.countdown = 1 + (c.countdown * c.rate + delaySum (delays c) c.currentEntry))
    (hi : i < c.addrCount) :
    (∃ j ≥ c.countdown * c.addrCount + c.currentEntry,
      sampleTime c j = late + (m + 1) ∧ j % c.addrCount = i) ↔ DueFrom c i m := by
  have hcur := h.current
  constructor
  · rintro ⟨j, hj, ht, rfl⟩
    refine ⟨hi, ?_⟩
    have htime := h.cycling.sampleTime_eq hi.le (j / c.addrCount)
    have hsplit := Nat.div_add_mod' j c.addrCount
    rw [hsplit] at htime
    have hround : c.countdown ≤ j / c.addrCount := by
      by_contra hn
      have := Nat.mul_le_mul_right c.addrCount (show j / c.addrCount + 1 ≤ c.countdown by omega)
      rw [Nat.add_mul] at this
      omega
    obtain ⟨k, hk⟩ := Nat.le.dest hround
    rw [← hk, Nat.add_mul] at htime hsplit
    refine ⟨k, by omega, ?_⟩
    rintro rfl
    omega
  · rintro ⟨-, k, hk, hfirst⟩
    refine ⟨(c.countdown + k) * c.addrCount + i, ?_, ?_, ?_⟩
    · rcases Nat.eq_zero_or_pos k with rfl | hpos
      · have := hfirst rfl
        simpa using this
      · have := Nat.mul_le_mul_right c.addrCount (show c.countdown + 1 ≤ c.countdown + k by omega)
        rw [Nat.add_mul c.countdown 1] at this
        omega
    · rw [h.cycling.sampleTime_eq hi.le, Nat.add_mul]
      omega
    · rw [Nat.add_comm, Nat.add_mul_mod_self_right, Nat.mod_eq_of_lt hi]

theorem beats_countP {c : DwellPacketControl cfg} {p : ℕ × Beat → Bool} {f : ℕ → Bool}
    (turn : ∀ g, (turnBeats c g).countP p = if f g then 1 else 0) (g k : ℕ) :
    (beats c g k).countP p = (List.range' g k).countP f := by
  induction k with
  | zero => simp
  | succ k ih =>
    rw [beats_succ, List.countP_append, ih, turn, List.range'_concat, List.countP_append,
      Nat.one_mul, List.countP_singleton]

theorem turnBeats_samples (c : DwellPacketControl cfg) (T i g : ℕ) :
    (turnBeats c g).countP (fun q => q == (T, .sample i)) =
      if sampleTime c g == T && g % c.addrCount == i then 1 else 0 := by
  simp only [turnBeats]
  split_ifs <;> simp_all [Prod.ext_iff]

theorem turnBeats_packets {c : DwellPacketControl cfg} (hn : 0 < c.addrCount) (T g : ℕ) :
    (turnBeats c g).countP (fun q => q == (T, .packet)) =
      if sampleTime c g == T && g % c.addrCount == c.addrCount - 1 then 1 else 0 := by
  have hlast : g % c.addrCount = c.addrCount - 1 ↔ g % c.addrCount + 1 = c.addrCount := by omega
  simp only [turnBeats]
  split_ifs <;> simp_all [Prod.ext_iff]

/-- The samples and packets of one wakeup of a stream that is left alone. -/
structure TakesDue (c : DwellPacketControl cfg) (t : TblIndex cfg) (m : ℕ) (l : Label cfg) :
    Prop where
  sampled : ∀ i, (DueFrom c i m → l.actions.countP (isSample t i) = 1) ∧
    (¬ DueFrom c i m → l.actions.countP (isSample t i) = 0)
  sent : (DueFrom c (c.addrCount - 1) m → l.actions.countP (isSend t) = 1) ∧
    (¬ DueFrom c (c.addrCount - 1) m → l.actions.countP (isSend t) = 0)

theorem Waiting.takes_due {s s' : State cfg} {tr : List (State cfg × Label cfg)}
    {t : TblIndex cfg} (hw : Waiting (s.dwellTables t)) (run : Run AnyStep s tr s')
    (alone : EveryStep (fun _ l => Undisturbed l t) tr) {m : ℕ} {l : Label cfg}
    (hl : (wakeups t tr)[m]? = some l) : TakesDue (s.dwellTables t) t m l := by
  obtain ⟨late, hstart, hlate⟩ := hw.followed t
  obtain ⟨k, hx⟩ := followed_run hw.cycling hw.enabled hstart run alone
  have hn := hw.cycling.addrCount_pos
  have hm : m < (wakeups t tr).length := (List.getElem?_eq_some_iff.mp hl).1
  generalize s.dwellTables t = c at *
  have later : late + (m + 1) <
      sampleTime c (c.countdown * c.addrCount + c.currentEntry + k) := by
    have hdue := hx.settled.due
    have hwait := hx.waiting
    omega
  have count : ∀ i < c.addrCount, ∀ N,
      N = (List.range' (c.countdown * c.addrCount + c.currentEntry) k).countP
        (fun j => sampleTime c j == late + (m + 1) && j % c.addrCount == i) →
      (DueFrom c i m → N = 1) ∧ (¬ DueFrom c i m → N = 0) := by
    rintro i hi N rfl
    rw [← hw.turn_iff hlate hi]
    exact turn_count hw.cycling later
  constructor
  · intro i
    have hcount : l.actions.countP (isSample t i) =
        (List.range' (c.countdown * c.addrCount + c.currentEntry) k).countP
          (fun j => sampleTime c j == late + (m + 1) && j % c.addrCount == i) := by
      rw [hx.countP (b := .sample i) hl fun a => by
        cases a <;> simp [isSample, actionTable, beatOf]]
      exact beats_countP (turnBeats_samples c _ i) _ k
    by_cases hi : i < c.addrCount
    · exact count i hi _ hcount
    · refine ⟨fun hd => absurd hd.1 hi, fun _ => hcount.trans ?_⟩
      rw [List.countP_eq_zero]
      intro j _ hj
      simp only [Bool.and_eq_true, beq_iff_eq] at hj
      exact hi (hj.2 ▸ Nat.mod_lt j hn)
  · apply count _ (Nat.sub_lt hn Nat.one_pos)
    rw [hx.countP (b := .packet) hl fun a => by cases a <;> simp [isSend, actionTable, beatOf]]
    exact beats_countP (turnBeats_packets hn _) _ k

/-- Wherever it waits, a stream that is left alone goes on with its schedule: every wakeup
samples the entries that are due, once each and no others, and sends a packet exactly if
the last active entry is due. The next wakeup ends exactly if its passes over the other
tables do. -/
theorem resumes_schedule {s s' : State cfg} {tr : List (State cfg × Label cfg)}
    {t : TblIndex cfg} (hw : Waiting (s.dwellTables t)) (run : Run AnyStep s tr s')
    (alone : EveryStep (fun _ l => Undisturbed l t) tr) :
    (∀ m l, (wakeups t tr)[m]? = some l → TakesDue (s.dwellTables t) t m l) ∧
    EveryState (fun u => ∀ svc, (∃ fuel w, dwellLoop svc fuel u = some w) ↔
      ∀ v ≠ t, PassEnds svc v (stream u v)) tr s' := by
  refine ⟨fun m l => hw.takes_due run alone, ?_⟩
  obtain ⟨late, hstart, -⟩ := hw.followed t
  have hall := run.everyState (I := fun u => ∃ ws k, Followed (s.dwellTables t) t
      ((s.dwellTables t).countdown * (s.dwellTables t).addrCount + (s.dwellTables t).currentEntry)
      late ws k (stream u t).control)
    (fun _ _ _ hu ⟨_, _, hx⟩ st =>
      ⟨_, followed_move hw.cycling hw.enabled hx hu (anyStep_move st t)⟩)
    ⟨[], 0, hstart⟩ alone
  exact hall.imp fun u ⟨_, _, hx⟩ svc => wakeup_ends_iff (hx.passEnds hw.cycling svc)

/-- The wakeups after the first one, which has left a stream in the middle of its round. -/
theorem resumes_schedule_second :
    let config := threeEntries
    let tbl := loadTable config dwellEnabled [loadEntry config 2 2 16, loadEntry config 4 1 20]
    let svc := smallServices config .success
    ∃ s₀ l₀ s tr s', Started flatMemory.resolver (recoverAll tbl) s₀ ∧ Step s₀ l₀ s ∧
      Run Step s tr s' ∧ Label.call l₀ = (svc, wakeupMsg config) ∧
      tr.map (fun q => Label.call q.2) = List.replicate 3 (svc, wakeupMsg config) ∧
      ∀ m l, (wakeups 0 tr)[m]? = some l →
        DueFrom (s.dwellTables 0) 1 m → l.actions.countP (isSample 0 1) = 1 := by
  intro config tbl svc
  obtain ⟨s₀, l₀, s, tr, s', h₀, first, run, hk, hks, hc⟩ := flight_first flatMemory.resolver
    (recoverAll tbl) 10 (blankState _) (svc, wakeupMsg config)
    (List.replicate 3 (svc, wakeupMsg config))
    (fun _ _ tr _ => tr.head?.any (fun q => Waiting (q.1.dwellTables 0)) ∧
      EveryStep (fun _ l => Undisturbed l 0) tr) (by decide +kernel)
  obtain ⟨hw, alone⟩ := of_decide_eq_true hc
  cases tr with
  | nil => simp at hw
  | cons q tr =>
    have hhead : q.1 = s := run.head
    have hwait : Waiting (s.dwellTables 0) := by simpa [hhead] using hw
    exact ⟨s₀, l₀, s, q :: tr, s', h₀, first, run, hk, hks,
      fun m l hl => (((resumes_schedule hwait (run_any run) alone).1 m l hl).sampled 1).1⟩

theorem Waiting.due_once {c : DwellPacketControl cfg} (h : Waiting c) {i a : ℕ}
    (hi : i < c.addrCount) (ha : c.countdown ≤ a) :
    ∃ j < c.rate, ∀ j' < c.rate, DueFrom c i (a + j') ↔ j' = j := by
  have hr := h.cycling.rate_pos
  have hmono : ∀ {x y : ℕ}, x ≤ y → delaySum (delays c) x ≤ delaySum (delays c) y :=
    PrefixSums.sum_range_le_of_le
  have hS : delaySum (delays c) i ≤ c.rate := by
    rw [h.cycling.rate_eq]
    exact hmono hi.le
  -- `x` is how far the window is behind the last wrap, and `k` the round that meets it.
  obtain ⟨x, hx⟩ : ∃ x, x + c.countdown = a + 1 + delaySum (delays c) c.currentEntry :=
    ⟨a + 1 + delaySum (delays c) c.currentEntry - c.countdown, by omega⟩
  obtain ⟨y, hy⟩ : ∃ y, y + delaySum (delays c) i + 1 = x + c.rate :=
    ⟨x + c.rate - 1 - delaySum (delays c) i, by omega⟩
  have hlow := Nat.div_mul_le_self y c.rate
  have hhigh := Nat.lt_div_mul_add (a := y) hr
  set k := y / c.rate with hk
  have round : ∀ k', k' * c.rate + delaySum (delays c) i < x + c.rate →
      x ≤ k' * c.rate + delaySum (delays c) i → k' = k := by
    intro k' hlt hle
    rcases Nat.lt_trichotomy k' k with h | h | h
    · have := Nat.mul_le_mul_right c.rate (show k' + 1 ≤ k from h)
      rw [Nat.add_mul, Nat.one_mul] at this
      omega
    · exact h
    · have := Nat.mul_le_mul_right c.rate (show k + 1 ≤ k' from h)
      rw [Nat.add_mul, Nat.one_mul] at this
      omega
  refine ⟨k * c.rate + delaySum (delays c) i - x, by omega, fun j' hj' => ?_⟩
  constructor
  · rintro ⟨-, k', hk', -⟩
    have hkk : k' = k := round k' (by omega) (by omega)
    rw [hkk] at hk'
    omega
  · rintro rfl
    refine ⟨hi, k, by omega, fun h0 => ?_⟩
    by_contra hlt
    have := hmono (show i ≤ c.currentEntry by omega)
    rw [h0, Nat.zero_mul] at hhigh
    omega

private theorem sum_map_once {α : Type*} {f : α → ℕ} {l : List α} {j : ℕ} (hj : j < l.length)
    (hone : ∀ k (hk : k < l.length), f l[k] = if k = j then 1 else 0) : (l.map f).sum = 1 := by
  induction l generalizing j with
  | nil => cases hj
  | cons x l ih =>
    have hx : f x = if 0 = j then 1 else 0 := hone 0 (Nat.zero_lt_succ _)
    have hl : ∀ k (hk : k < l.length), f l[k] = if k + 1 = j then 1 else 0 :=
      fun k hk => hone (k + 1) (Nat.succ_lt_succ hk)
    rw [List.map_cons, List.sum_cons, hx]
    cases j with
    | zero =>
      have hzero : (l.map f).sum = 0 := by
        apply List.sum_eq_zero
        intro y hy
        obtain ⟨z, hz, rfl⟩ := List.mem_map.mp hy
        obtain ⟨k, hk, rfl⟩ := List.mem_iff_getElem.mp hz
        exact (hl k hk).trans (if_neg (Nat.succ_ne_zero k))
      rw [if_pos rfl, hzero]
    | succ j =>
      rw [if_neg (Nat.succ_ne_zero j).symm, Nat.zero_add]
      exact ih (Nat.lt_of_succ_lt_succ hj) fun k hk => by simpa using hl k hk

/-- From the first sample on, any wakeups in a row, as many as a round takes, sample every
active entry once and send one packet. -/
theorem windows_fair {s s' : State cfg} {tr : List (State cfg × Label cfg)} {t : TblIndex cfg}
    (hw : Waiting (s.dwellTables t)) (run : Run AnyStep s tr s')
    (alone : EveryStep (fun _ l => Undisturbed l t) tr) {before window after : List (Label cfg)}
    (hs : wakeups t tr = before ++ window ++ after)
    (hb : (s.dwellTables t).countdown ≤ before.length)
    (hlen : window.length = (s.dwellTables t).rate) :
    (∀ i < (s.dwellTables t).addrCount,
      (window.flatMap Label.actions).countP (isSample t i) = 1) ∧
    (window.flatMap Label.actions).countP (isSend t) = 1 := by
  have hlabel : ∀ k (hk : k < window.length),
      (wakeups t tr)[before.length + k]? = some window[k] := by
    intro k hk
    rw [hs, List.append_assoc, List.getElem?_append_right (Nat.le_add_right _ _),
      Nat.add_sub_cancel_left, List.getElem?_append_left hk, List.getElem?_eq_getElem hk]
  have once : ∀ {p : Action cfg → Bool} {i : ℕ}, i < (s.dwellTables t).addrCount →
      (∀ {m l}, (wakeups t tr)[m]? = some l →
        (DueFrom (s.dwellTables t) i m → l.actions.countP p = 1) ∧
          (¬ DueFrom (s.dwellTables t) i m → l.actions.countP p = 0)) →
      (window.flatMap Label.actions).countP p = 1 := by
    intro p i hi hp
    obtain ⟨j, hj, hdue⟩ := hw.due_once hi hb
    rw [List.countP_flatMap]
    refine sum_map_once (j := j) (by omega) fun k hk => ?_
    have hcount := hp (hlabel k hk)
    rw [hdue k (by omega)] at hcount
    split_ifs with h
    · exact hcount.1 h
    · exact hcount.2 h
  have hn := hw.cycling.addrCount_pos
  refine ⟨fun i hi => once hi fun hl => (hw.takes_due run alone hl).sampled i, ?_⟩
  exact once (Nat.sub_lt hn Nat.one_pos) fun hl => (hw.takes_due run alone hl).sent

/-- The same table with two wakeups before the window, until the delay under way is over. -/
theorem windows_fair_second :
    let config := threeEntries
    let tbl := loadTable config dwellEnabled [loadEntry config 2 2 16, loadEntry config 4 1 20]
    let svc := smallServices config .success
    ∃ s₀ l₀ s tr s', Started flatMemory.resolver (recoverAll tbl) s₀ ∧ Step s₀ l₀ s ∧
      Run Step s tr s' ∧ Label.call l₀ = (svc, wakeupMsg config) ∧
      tr.map (fun q => Label.call q.2) = List.replicate 5 (svc, wakeupMsg config) ∧
      (((wakeups 0 tr).drop 2).flatMap Label.actions).countP (isSend 0) = 1 := by
  intro config tbl svc
  obtain ⟨s₀, l₀, s, tr, s', h₀, first, run, hk, hks, hc⟩ := flight_first flatMemory.resolver
    (recoverAll tbl) 10 (blankState _) (svc, wakeupMsg config)
    (List.replicate 5 (svc, wakeupMsg config))
    (fun _ _ tr _ => tr.head?.any (fun q => Waiting (q.1.dwellTables 0) ∧
        (q.1.dwellTables 0).countdown = 2 ∧ (q.1.dwellTables 0).rate = 3) ∧
      EveryStep (fun _ l => Undisturbed l 0) tr ∧ (wakeups 0 tr).length = 5) (by decide +kernel)
  obtain ⟨hw, alone, hlen⟩ := of_decide_eq_true hc
  cases tr with
  | nil => simp at hw
  | cons q tr =>
    have hhead : q.1 = s := run.head
    obtain ⟨hwait, hcount, hrate⟩ : Waiting (s.dwellTables 0) ∧
        (s.dwellTables 0).countdown = 2 ∧ (s.dwellTables 0).rate = 3 := by
      simpa [hhead] using hw
    refine ⟨s₀, l₀, s, q :: tr, s', h₀, first, run, hk, hks, ?_⟩
    have hsplit : wakeups 0 (q :: tr) =
        (wakeups 0 (q :: tr)).take 2 ++ (wakeups 0 (q :: tr)).drop 2 ++ [] := by simp
    exact (windows_fair hwait (run_any run) alone hsplit (by simp [hcount, hlen])
      (by simp [hrate, hlen])).2

end SchedulePhases
