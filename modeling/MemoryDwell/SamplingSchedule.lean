import MemoryDwell.ReadResults
import MemoryDwell.EntryIndices

/-! # The sampling schedule

From the start of a stream on, and as long as nobody touches its table, every wakeup takes
exactly the samples that are due and every round of the table fills one packet. A wakeup
serves all tables in turn, so that it must get past the other ones. -/
namespace SamplingSchedule

open DwellData DwellUtils DwellTbl DwellPkts DwellCmds DwellApp DwellRuns DwellStreams StreamInit
open DwellTurns DwellTraces PacketBounds CollectedBytes EntryIndices TransitionRuns
open ReadResults (Endless dwellTable_ends_iff)

variable {cfg : Config}

def isPass : StreamOp cfg → Bool
  | .pass => true
  | _ => false

/-- The wakeups of a run, in their order. -/
def wakeups (t : TblIndex cfg) (tr : List (State cfg × Label cfg)) : List (Label cfg) :=
  (tr.map Prod.snd).filter fun l => isPass (opOf l t)

/-- No command and no load for the table. -/
def Undisturbed (l : Label cfg) (t : TblIndex cfg) : Prop :=
  match opOf l t with
  | .idle | .pass => True
  | _ => False

/-- A Start of a table that is ready, or an update that enables the table and makes it
ready. -/
def Begins (l : Label cfg) (t : TblIndex cfg) (x : Stream cfg) : Prop :=
  match opOf l t with
  | .start _ => Ready x.control
  | .load tbl true => tbl.enabled = dwellEnabled ∧
      (∀ i < activeLength cfg (loadLengths tbl), loadLengths tbl i = 1 ∨ loadLengths tbl i = 2 ∨
        loadLengths tbl i = 4) ∧
      0 < delaySum (loadDelays tbl) (activeLength cfg (loadLengths tbl))
  | _ => False

instance (l : Label cfg) (t : TblIndex cfg) : Decidable (Undisturbed l t) := by
  unfold Undisturbed
  induction opOf l t using StreamOp.byAnswer <;> infer_instance

instance (l : Label cfg) (t : TblIndex cfg) (x : Stream cfg) : Decidable (Begins l t x) := by
  unfold Begins
  induction opOf l t using StreamOp.byAnswer <;> infer_instance

def isSample (t : TblIndex cfg) (i : ℕ) : Action cfg → Bool
  | .sample u j _ _ _ => decide (u = t ∧ j = i)
  | _ => false

def isSend (t : TblIndex cfg) : Action cfg → Bool
  | .sendDwell u _ => decide (u = t)
  | _ => false

/-- Entry `i` is due at wakeup `m`, counted from zero. -/
def Due (c : DwellPacketControl cfg) (i m : ℕ) : Prop :=
  i < c.addrCount ∧ ∃ k, m = k * c.rate + delaySum (delays c) i

/-- What the wakeups `ws` do for the stream of table `t`; `c` is its control structure. -/
structure FollowsSchedule (c : DwellPacketControl cfg) (t : TblIndex cfg)
    (ws : List (Label cfg)) : Prop where
  /-- Each entry is sampled once when it is due, and not otherwise. -/
  sampled : ∀ (m : ℕ) (l : Label cfg), ws[m]? = some l → ∀ i,
    (Due c i m → l.actions.countP (isSample t i) = 1) ∧
    (¬Due c i m → l.actions.countP (isSample t i) = 0)
  /-- A packet goes out with the last entry. -/
  sent : ∀ (m : ℕ) (l : Label cfg), ws[m]? = some l →
    (Due c (c.addrCount - 1) m → l.actions.countP (isSend t) = 1) ∧
    (¬Due c (c.addrCount - 1) m → l.actions.countP (isSend t) = 0)
  /-- Each sample is of the right memory and goes to its place. -/
  placed : ∀ (m : ℕ) (l : Label cfg), ws[m]? = some l → ∀ i offset numBytes data,
    Action.sample t i offset numBytes data ∈ l.actions →
      offset = lengthSum (lengths c) i ∧ numBytes = (lengths c i).toNat ∧
      ∃ r, data = l.services.memRead t r (c.entry i).resolvedAddress numBytes
  /-- Packet `k` has the bytes that its round has read. -/
  packet : ∀ (k : ℕ) (l : Label cfg) pkt,
    ws[k * c.rate + delaySum (delays c) (c.addrCount - 1)]? = some l →
    Action.sendDwell t pkt ∈ l.actions →
      pkt.byteCount = c.dataSize ∧ pkt.addrCount = c.addrCount ∧ pkt.rate = c.rate ∧
      ∀ i < c.addrCount, ∀ (l' : Label cfg) offset numBytes bytes,
        ws[k * c.rate + delaySum (delays c) i]? = some l' →
        Action.sample t i offset numBytes (some bytes) ∈ l'.actions →
        ∀ j < (lengths c i).toNat, pkt.data (lengthSum (lengths c) i + j) = bytes j

/-- The actions of table `t` with the number of their wakeup, counted from one. -/
def wakeupLog (t : TblIndex cfg) (ws : List (Label cfg)) : List (ℕ × Action cfg) :=
  (ws.zipIdx 1).flatMap fun q => (actionsOf t q.1.actions).map (Prod.mk q.2)

theorem wakeupLog_snoc (t : TblIndex cfg) (ws : List (Label cfg)) (l : Label cfg) :
    wakeupLog t (ws ++ [l]) =
      wakeupLog t ws ++ (actionsOf t l.actions).map (Prod.mk (ws.length + 1)) := by
  simp [wakeupLog, List.zipIdx_append, Nat.add_comm]

/-- A stream after the wakeups `ws`, in which it took the turns `us`. -/
structure Logged (c : DwellPacketControl cfg) (t : TblIndex cfg) (ws : List (Label cfg))
    (us : List (Turn cfg)) (x : Stream cfg) : Prop where
  log : wakeupLog t ws = turnsLog c t us
  position : Position c us ws.length x.control x.pkt
  waiting : 1 ≤ x.control.countdown
  answered : ∀ l ∈ ws, ∀ a ∈ actionsOf t l.actions, Answered l.services c a

theorem logged_start {c : DwellPacketControl cfg} {t : TblIndex cfg} {x : Stream cfg}
    (hc : x.control = c) (h1 : c.countdown = 1) (h0 : c.currentEntry = 0) (ho : c.pktOffset = 0) :
    Logged c t [] [] x := by
  subst hc
  refine ⟨rfl, ⟨SameContents.refl _, ?_, ?_, ?_, ?_, ?_⟩, h1.ge, by simp⟩
  · rw [h0, List.length_nil, Nat.zero_mod]
  · rw [ho, List.length_nil, Nat.zero_mod]
    rfl
  · exact h1
  · exact fun _ _ _ u hu => by simp at hu
  · exact fun g u hu => by simp at hu

theorem logged_move {c : DwellPacketControl cfg} {t : TblIndex cfg} {ws : List (Label cfg)}
    {us : List (Turn cfg)} {l : Label cfg} {x y : Stream cfg} (hN : cfg.dwellTableSize ≤ 255)
    (h : Ready c) (he : c.enabled = dwellEnabled) (hx : Logged c t ws us x)
    (hu : Undisturbed l t) (mv : StreamMove l t x y) :
    ∃ us', Logged c t (ws ++ [l].filter fun l => isPass (opOf l t)) us' y := by
  have hs := mv.step
  simp only [Undisturbed] at hu
  cases hop : opOf l t with
  | idle =>
    rw [hop] at hs
    refine ⟨us, ?_⟩
    simpa [hop, isPass, hs.1] using hx
  | pass =>
    rw [hop] at hs
    obtain ⟨fuel, p, hpass, rfl, hacts⟩ := hs
    obtain ⟨us', hp, hcount⟩ := pass_progress hN h he hx.position hx.waiting hpass
    refine ⟨us', ?_⟩
    simp only [hop, isPass, List.filter_cons_of_pos, List.filter_nil]
    refine ⟨?_, ?_, hcount, ?_⟩
    · rw [wakeupLog_snoc, hx.log, hp.log, hacts]
    · rw [List.length_append, List.length_singleton]
      exact hp.position
    · intro l' hl'
      rcases List.mem_append.mp hl' with hl' | hl'
      · exact hx.answered l' hl'
      · rw [List.mem_singleton.mp hl', hacts]
        exact hp.answered
  | _ =>
    rw [hop] at hu
    exact hu.elim

theorem logged_run {c : DwellPacketControl cfg} {t : TblIndex cfg} {s s' : State cfg}
    {tr : List (State cfg × Label cfg)} (hN : cfg.dwellTableSize ≤ 255) (h : Ready c)
    (he : c.enabled = dwellEnabled) (hs : Logged c t [] [] (stream s t)) (run : Run AnyStep s tr s')
    (alone : EveryStep (fun _ l => Undisturbed l t) tr) :
    ∃ us, Logged c t (wakeups t tr) us (stream s' t) := by
  induction run with
  | nil => exact ⟨[], hs⟩
  | snoc _ st ih =>
    obtain ⟨alone, hu⟩ := everyStep_snoc.mp alone
    obtain ⟨us, hl⟩ := ih alone
    obtain ⟨us', hl'⟩ := logged_move hN h he hl hu (anyStep_move st t)
    refine ⟨us', ?_⟩
    simpa [wakeups] using hl'

private theorem logFrom_countP {t : TblIndex cfg} {p : Action cfg → Bool} {l : Label cfg}
    (ws : List (Label cfg)) : ∀ k m, ws[m]? = some l →
    ((ws.zipIdx k).flatMap fun q => (actionsOf t q.1.actions).map (Prod.mk q.2)).countP
      (fun q => q.1 == k + m && p q.2) = (actionsOf t l.actions).countP p := by
  have later : ∀ (ws : List (Label cfg)) (k v : ℕ), v < k →
      ((ws.zipIdx k).flatMap fun q => (actionsOf t q.1.actions).map (Prod.mk q.2)).countP
        (fun q => q.1 == v && p q.2) = 0 := by
    intro ws k v hv
    rw [List.countP_eq_zero]
    rintro q hq
    obtain ⟨⟨l, n⟩, hn, hq⟩ := List.mem_flatMap.mp hq
    obtain ⟨a, -, rfl⟩ := List.mem_map.mp hq
    have hkn : k ≤ n := (List.mk_mem_zipIdx_iff_le_and_getElem?_sub.mp hn).1
    simp [show n ≠ v by omega]
  induction ws with
  | nil =>
    intro k m hm
    cases hm
  | cons w ws ih =>
    intro k m hm
    rw [List.zipIdx_cons, List.flatMap_cons, List.countP_append, List.countP_map]
    cases m with
    | zero =>
      obtain rfl := Option.some.inj hm
      rw [Nat.add_zero, later ws (k + 1) k (Nat.lt_succ_self k), Nat.add_zero]
      simp [Function.comp_def]
    | succ m =>
      have hrest := ih (k + 1) m hm
      rw [show k + (m + 1) = k + 1 + m by omega, hrest]
      simp [Function.comp_def, show k ≠ k + 1 + m by omega]

theorem wakeupLog_countP {t : TblIndex cfg} {ws : List (Label cfg)} {m : ℕ} {l : Label cfg}
    (hl : ws[m]? = some l) {p : Action cfg → Bool}
    (hp : ∀ a, p a = true → actionTable a = some t) :
    l.actions.countP p = (wakeupLog t ws).countP (fun q => q.1 == m + 1 && p q.2) := by
  have hlog := logFrom_countP (t := t) (p := p) ws 1 m hl
  rw [wakeupLog, Nat.add_comm m 1, hlog, actionsOf, List.countP_filter]
  apply List.countP_congr
  intro a _
  simp only [Bool.and_eq_true, decide_eq_true_eq]
  exact ⟨fun h => ⟨h, hp a h⟩, fun h => h.1⟩

theorem mem_wakeupLog {t : TblIndex cfg} {ws : List (Label cfg)} {m : ℕ} {l : Label cfg}
    (hl : ws[m]? = some l) {a : Action cfg} (ha : a ∈ actionsOf t l.actions) :
    (m + 1, a) ∈ wakeupLog t ws := by
  refine List.mem_flatMap.mpr ⟨(l, m + 1), ?_, List.mem_map_of_mem ha⟩
  rw [List.mk_mem_zipIdx_iff_le_and_getElem?_sub]
  exact ⟨Nat.le_add_left 1 m, by simpa using hl⟩

theorem turnsLog_countP {c : DwellPacketControl cfg} {t : TblIndex cfg}
    {p : ℕ × Action cfg → Bool} {f : ℕ → Bool}
    (turn : ∀ g u, (turnLog c t g u).countP p = if f g then 1 else 0) (us : List (Turn cfg)) :
    (turnsLog c t us).countP p = (List.range us.length).countP f := by
  induction us using List.reverseRecOn with
  | nil => rfl
  | append_singleton us u ih =>
    rw [turnsLog_snoc, List.countP_append, ih, turn, List.length_append, List.length_singleton,
      List.range_succ, List.countP_append, List.countP_singleton]

theorem turnLog_samples (c : DwellPacketControl cfg) (t : TblIndex cfg) (v i g : ℕ)
    (u : Turn cfg) :
    (turnLog c t g u).countP (fun q => q.1 == v && isSample t i q.2) =
      if sampleTime c g == v && g % c.addrCount == i then 1 else 0 := by
  simp only [turnLog]
  split_ifs <;> simp_all [isSample]

theorem turnLog_sends (c : DwellPacketControl cfg) (t : TblIndex cfg) (v g : ℕ) (u : Turn cfg) :
    (turnLog c t g u).countP (fun q => q.1 == v && isSend t q.2) =
      if sampleTime c g == v && g % c.addrCount + 1 == c.addrCount then 1 else 0 := by
  simp only [turnLog]
  split_ifs <;> simp_all [isSend]

theorem sampleTime_iff {c : DwellPacketControl cfg} (h : Cycling c) {i : ℕ} (hi : i < c.addrCount)
    {g m : ℕ} :
    sampleTime c g = m + 1 ∧ g % c.addrCount = i ↔
      ∃ k, g = k * c.addrCount + i ∧ m = k * c.rate + delaySum (delays c) i := by
  constructor
  · rintro ⟨ht, rfl⟩
    refine ⟨g / c.addrCount, (Nat.div_add_mod' g c.addrCount).symm, ?_⟩
    have hk := h.sampleTime_eq hi.le (g / c.addrCount)
    rw [Nat.div_add_mod', ht] at hk
    omega
  · rintro ⟨k, rfl, rfl⟩
    rw [h.sampleTime_eq hi.le]
    refine ⟨Nat.add_comm _ _, ?_⟩
    rw [Nat.add_comm, Nat.add_mul_mod_self_right, Nat.mod_eq_of_lt hi]

theorem due_count {c : DwellPacketControl cfg} (h : Cycling c) {i m G : ℕ} (hi : i < c.addrCount)
    (hG : m + 1 < sampleTime c G) {f : ℕ → Bool}
    (hf : ∀ g, f g = true ↔ sampleTime c g = m + 1 ∧ g % c.addrCount = i) :
    (Due c i m → (List.range G).countP f = 1) ∧ (¬Due c i m → (List.range G).countP f = 0) := by
  constructor
  · rintro ⟨-, k, hk⟩
    have hg := (sampleTime_iff h hi).mpr ⟨k, rfl, hk⟩
    have hlt : k * c.addrCount + i < G := by
      by_contra hn
      have := sampleTime_mono c (Nat.le_of_not_lt hn)
      omega
    have hone : ∀ g, f g = true ↔ (g == k * c.addrCount + i) = true := by
      intro g
      rw [hf, beq_iff_eq]
      constructor
      · rintro ⟨ht, hm⟩
        exact h.sampleTime_injective (hm.trans hg.2.symm) (ht.trans hg.1.symm)
      · rintro rfl
        exact hg
    rw [List.countP_congr fun g _ => hone g, ← List.count_eq_countP]
    exact List.count_eq_one_of_mem List.nodup_range (List.mem_range.mpr hlt)
  · intro hn
    rw [List.countP_eq_zero]
    intro g _ hfg
    obtain ⟨k, -, hk⟩ := (sampleTime_iff h hi).mp ((hf g).mp hfg)
    exact hn ⟨hi, k, hk⟩

section Reading

variable {c : DwellPacketControl cfg} {t : TblIndex cfg} {ws : List (Label cfg)}
  {us : List (Turn cfg)} {x : Stream cfg} {m : ℕ} {l : Label cfg}

theorem Logged.next_later (hx : Logged c t ws us x) (hl : ws[m]? = some l) :
    m + 1 < sampleTime c us.length := by
  have hm : m < ws.length := (List.getElem?_eq_some_iff.mp hl).1
  have hdue := hx.position.due
  have hw := hx.waiting
  omega

theorem Logged.sampled (h : Ready c) (hx : Logged c t ws us x) (hl : ws[m]? = some l) (i : ℕ) :
    (Due c i m → l.actions.countP (isSample t i) = 1) ∧
      (¬Due c i m → l.actions.countP (isSample t i) = 0) := by
  have hcount : l.actions.countP (isSample t i) =
      (List.range us.length).countP
        (fun g => sampleTime c g == m + 1 && g % c.addrCount == i) := by
    rw [wakeupLog_countP hl, hx.log]
    · exact turnsLog_countP (turnLog_samples c t (m + 1) i) us
    · intro a ha
      cases a <;> simp_all [isSample, actionTable]
  rw [hcount]
  by_cases hi : i < c.addrCount
  · exact due_count h.toCycling hi (hx.next_later hl) fun g => by simp
  · refine ⟨fun hd => absurd hd.1 hi, fun _ => List.countP_eq_zero.mpr fun g _ hg => hi ?_⟩
    simp only [Bool.and_eq_true, beq_iff_eq] at hg
    exact hg.2 ▸ Nat.mod_lt g h.addrCount_pos

theorem Logged.sent (h : Ready c) (hx : Logged c t ws us x) (hl : ws[m]? = some l) :
    (Due c (c.addrCount - 1) m → l.actions.countP (isSend t) = 1) ∧
      (¬Due c (c.addrCount - 1) m → l.actions.countP (isSend t) = 0) := by
  have hn := h.addrCount_pos
  have hcount : l.actions.countP (isSend t) =
      (List.range us.length).countP
        (fun g => sampleTime c g == m + 1 && g % c.addrCount + 1 == c.addrCount) := by
    rw [wakeupLog_countP hl, hx.log]
    · exact turnsLog_countP (turnLog_sends c t (m + 1)) us
    · intro a ha
      cases a <;> simp_all [isSend, actionTable]
  rw [hcount]
  apply due_count h.toCycling (Nat.sub_lt hn Nat.one_pos) (hx.next_later hl)
  intro g
  simp only [Bool.and_eq_true, beq_iff_eq]
  exact and_congr_right fun _ => by omega

theorem Logged.sample_turn (h : Ready c) (hx : Logged c t ws us x) (hl : ws[m]? = some l)
    {i offset numBytes : ℕ} {data : Option (ℕ → UInt8)}
    (ha : Action.sample t i offset numBytes data ∈ l.actions) :
    ∃ k u, us[k * c.addrCount + i]? = some u ∧ i < c.addrCount ∧
      m = k * c.rate + delaySum (delays c) i ∧ offset = lengthSum (lengths c) i ∧
      numBytes = (lengths c i).toNat ∧ data = u.data := by
  have hmem : Action.sample t i offset numBytes data ∈ actionsOf t l.actions := by
    simp [actionsOf, ha, actionTable]
  have hlog := mem_wakeupLog hl hmem
  rw [hx.log, mem_turnsLog] at hlog
  obtain ⟨g, u, hu, hq⟩ := hlog
  have hi := Nat.mod_lt g h.addrCount_pos
  rcases List.mem_cons.mp hq with hq | hq
  · simp only [Prod.mk.injEq, Action.sample.injEq, true_and] at hq
    obtain ⟨ht, rfl, rfl, rfl, rfl⟩ := hq
    obtain ⟨k, hg, hk⟩ := (sampleTime_iff h.toCycling hi).mp ⟨ht.symm, rfl⟩
    exact ⟨k, u, hg ▸ hu, hi, hk, rfl, rfl, rfl⟩
  · split_ifs at hq
    · simp at hq
    · cases hq

theorem Logged.send_turn (h : Ready c) (hx : Logged c t ws us x) (hl : ws[m]? = some l)
    {pkt : DwellPkt cfg} (ha : Action.sendDwell t pkt ∈ l.actions) :
    ∃ k u, us[k * c.addrCount + (c.addrCount - 1)]? = some u ∧
      m = k * c.rate + delaySum (delays c) (c.addrCount - 1) ∧ pkt = u.pkt := by
  have hn := h.addrCount_pos
  have hmem : Action.sendDwell t pkt ∈ actionsOf t l.actions := by
    simp [actionsOf, ha, actionTable]
  have hlog := mem_wakeupLog hl hmem
  rw [hx.log, mem_turnsLog] at hlog
  obtain ⟨g, u, hu, hq⟩ := hlog
  rcases List.mem_cons.mp hq with hq | hq
  · simp at hq
  · split_ifs at hq with hlast
    · simp only [List.mem_singleton, Prod.mk.injEq, Action.sendDwell.injEq, true_and] at hq
      obtain ⟨ht, rfl⟩ := hq
      have hi : c.addrCount - 1 < c.addrCount := Nat.sub_lt hn Nat.one_pos
      obtain ⟨k, hg, hk⟩ := (sampleTime_iff h.toCycling hi).mp ⟨ht.symm, by omega⟩
      exact ⟨k, u, hg ▸ hu, hk, rfl⟩
    · cases hq

theorem Logged.follows (h : Ready c) (hx : Logged c t ws us x) : FollowsSchedule c t ws := by
  have hn := h.addrCount_pos
  constructor
  · exact fun m l hl i => hx.sampled h hl i
  · exact fun m l hl => hx.sent h hl
  · intro m l hl i offset numBytes data ha
    obtain ⟨k, u, -, -, -, ho, hb, -⟩ := hx.sample_turn h hl ha
    have hans : Answered l.services c (.sample t i offset numBytes data) :=
      hx.answered l (List.mem_of_getElem? hl) _ (by simp [actionsOf, ha, actionTable])
    exact ⟨ho, hb, hans⟩
  · intro k l pkt hl ha
    obtain ⟨k', u, hu, hk, rfl⟩ := hx.send_turn h hl ha
    obtain rfl : k = k' := Nat.eq_of_mul_eq_mul_right h.rate_pos (Nat.add_right_cancel hk)
    have hi : c.addrCount - 1 < c.addrCount := Nat.sub_lt hn Nat.one_pos
    obtain ⟨hdata, hheader⟩ := hx.position.complete _ u hu
    have hplace : ∀ j < c.addrCount, (k * c.addrCount + j) % c.addrCount = j ∧
        (k * c.addrCount + j) / c.addrCount = k := by
      intro j hj
      rw [Nat.add_comm, Nat.add_mul_mod_self_right, Nat.mod_eq_of_lt hj,
        Nat.add_mul_div_right _ _ hn, Nat.div_eq_of_lt hj, Nat.zero_add]
      exact ⟨rfl, rfl⟩
    obtain ⟨hsize, hcount, hrate⟩ := hheader (by rw [(hplace _ hi).1]; omega)
    refine ⟨hsize, hcount, hrate, ?_⟩
    intro i hic l' offset numBytes bytes hl' ha' j hj
    obtain ⟨k', v, hv, -, hk', -, -, hb⟩ := hx.sample_turn h hl' ha'
    obtain rfl : k = k' := Nat.eq_of_mul_eq_mul_right h.rate_pos (Nat.add_right_cancel hk')
    have hround := hdata (k * c.addrCount + i) (by omega)
      (by rw [(hplace i hic).2, (hplace _ hi).2]) v hv
    rw [(hplace i hic).1] at hround
    exact hround bytes hb.symm j hj

end Reading

theorem Ready.congr {c d : DwellPacketControl cfg} (h : Ready c) (he : d.entry = c.entry)
    (ha : d.addrCount = c.addrCount) (hs : d.dataSize = c.dataSize) (hr : d.rate = c.rate) :
    Ready d := by
  have hl : lengths d = lengths c := funext fun i => by simp only [lengths, he]
  have hd : delays d = delays c := funext fun i => by simp only [delays, he]
  obtain ⟨⟨haddr, hsize, hrate, hpos⟩, hlen⟩ := h
  simp only [updateDwellControlInfo, ← hl, ← hd] at haddr hsize hrate
  exact ⟨⟨ha.trans haddr, hs.trans hsize, hr.trans hrate, by rwa [hr]⟩, by rwa [ha, hl]⟩

theorem begins_logged {l : Label cfg} {t : TblIndex cfg} {x y : Stream cfg} (hb : Begins l t x)
    (mv : StreamMove l t x y) :
    Ready y.control ∧ y.control.enabled = dwellEnabled ∧ Logged y.control t [] [] y := by
  have hs := mv.step
  simp only [Begins] at hb
  cases hop : opOf l t with
  | start granted =>
    rw [hop] at hs hb
    obtain ⟨rfl, -⟩ := hs
    exact ⟨Ready.congr hb rfl rfl rfl rfl, rfl, logged_start rfl rfl rfl rfl⟩
  | load tbl copied =>
    rw [hop] at hs hb
    obtain ⟨rfl, -⟩ := hs
    cases copied with
    | false => exact hb.elim
    | true =>
      obtain ⟨hen, hlen, hrate⟩ := hb
      have hn := activeLength_le cfg (loadLengths tbl)
      have hactive := activeLength_copied l.services.toResolver tbl x.control
      have hinfo : Ready (updateDwellControlInfo
          (copiedUpTo l.services.toResolver tbl x.control cfg.dwellTableSize)) := by
        have hl := fun i hi => lengths_copied l.services.toResolver tbl x.control
          (show i < cfg.dwellTableSize from hi)
        have hd := fun i hi => delays_copied l.services.toResolver tbl x.control
          (show i < cfg.dwellTableSize from hi)
        refine ⟨⟨rfl, rfl, rfl, ?_⟩, ?_⟩
        · rw [updateDwellControlInfo_eq]
          simp only [hactive]
          rwa [delaySum_congr fun i hi => hd i (hi.trans_le hn)]
        · rw [updateDwellControlInfo_eq]
          intro i hi
          rw [hactive] at hi
          have := hlen i hi
          rwa [← hl i (hi.trans_le hn)] at this
      have hadopt : adopt l.services.toResolver tbl x.control =
          startDwellStream (updateDwellControlInfo
            (copiedUpTo l.services.toResolver tbl x.control cfg.dwellTableSize)) := if_pos hen
      have henabled : tbl.enabled % 65536 = dwellEnabled := by
        rw [hen]
        rfl
      simp only [install, if_true, hadopt]
      exact ⟨Ready.congr hinfo rfl rfl rfl rfl, henabled, logged_start rfl rfl rfl rfl⟩
  | _ =>
    rw [hop] at hb
    exact hb.elim

/-- The pass of a table ends whatever memory answers, and does not leave the C arrays. -/
def PassCompletes (t : TblIndex cfg) (x : Stream cfg) : Prop :=
  ∀ svc, (∃ fuel q, dwellTable svc fuel t (.start x.control x.pkt) = some q) ∧
    ∀ fuel q, dwellTable svc fuel t (.start x.control x.pkt) = some q →
      ∀ a ∈ q.actions, ActionDefined a

/-- So does a wakeup. -/
def WakeupCompletes (s : State cfg) : Prop :=
  ∀ svc, (∃ fuel w, dwellLoop svc fuel s = some w) ∧
    ∀ fuel w, dwellLoop svc fuel s = some w → ∀ a ∈ w.actions, ActionDefined a

/-- Some active entry has a delay, unless none is due; and while the table is active its
entries are short and its position is at most four bytes for each entry passed. -/
structure Passable (c : DwellPacketControl cfg) : Prop where
  ends : ¬ Endless c
  inside : Active c → Bounded c

theorem action_defined {a : Action cfg} (ht : ∀ t, actionTable a = some t → ActionDefined a) :
    ActionDefined a := by
  cases a with
  | sample t _ _ _ _ => exact ht t rfl
  | restart t _ => exact ht t rfl
  | sendDwell t _ => exact ht t rfl
  | _ => trivial

theorem wakeup_completes {s : State cfg} (h : ∀ t, PassCompletes t (stream s t)) :
    WakeupCompletes s := by
  intro svc
  refine ⟨dwellLoop_total fun t => (h t svc).1, fun fuel w hw a ha => action_defined ?_⟩
  intro t ht
  obtain ⟨p, hp, -, -, hacts⟩ := dwellLoop_stream hw t
  have hmem : a ∈ actionsOf t w.actions := by simp [actionsOf, ha, ht]
  exact (h t svc).2 fuel p hp a (hacts ▸ hmem)

theorem step_of_completes {s s' : State cfg} {l : Label cfg}
    (h : ∀ t, PassCompletes t (stream s t)) (st : AnyStep s l s') : Step s l s' := by
  refine ⟨st, fun a ha => action_defined fun t ht => ?_⟩
  have hmem : a ∈ actionsOf t l.actions := by simp [actionsOf, ha, ht]
  obtain ⟨fuel, p, hp, hap⟩ := (anyStep_move st t).pass_of_action hmem
  exact (h t l.services).2 fuel p hp a hap

theorem passable_completes {t : TblIndex cfg} {x : Stream cfg} (hN : cfg.dwellTableSize ≤ 255)
    (hx : InTable x.control) (h : Passable x.control) : PassCompletes t x := by
  intro svc
  refine ⟨(dwellTable_ends_iff hx.addrCount x.pkt).mpr h.ends, fun fuel q hq a ha => ?_⟩
  by_cases hact : Active x.control
  · have hin : Indexed a := pass_indexed hx rfl hq a ha
    have hfit : Fits a := (pass_bounded hN (h.inside hact) rfl hq).2 a ha
    cases a with
    | sample u i offset numBytes data => exact ⟨hin, fun _ => hfit.1⟩
    | restart u i => exact hin
    | _ => trivial
  · rw [dwellTable_off svc fuel t (p := .start x.control x.pkt) hact] at hq
    cases hq
    cases ha

/-- The stream that follows its schedule is no obstacle. -/
theorem Logged.completes {c : DwellPacketControl cfg} {t : TblIndex cfg} {ws : List (Label cfg)}
    {us : List (Turn cfg)} {x : Stream cfg} (hN : cfg.dwellTableSize ≤ 255) (h : Ready c)
    (he : c.enabled = dwellEnabled) (hx : Logged c t ws us x) : PassCompletes t x := by
  intro svc
  constructor
  · obtain ⟨i, hi, hd⟩ := h.delay
    have hdriven : WakeupEnds.Driven c :=
      ⟨h.addrCount_le, fun _ => ⟨i, hi, fun h0 => hd (by rw [delays, h0]; rfl)⟩⟩
    exact WakeupEnds.dwellTable_ends svc t (hdriven.of_contents hx.position.contents) x.pkt
  · intro fuel q hq a ha
    obtain ⟨us', hp, -⟩ := pass_progress hN h he hx.position hx.waiting hq
    have hmem : (ws.length + 1, a) ∈ turnsLog c t us' := by
      rw [hp.log]
      exact List.mem_append_right _ (List.mem_map_of_mem ha)
    exact turnsLog_defined h hmem

/-- From its start on, a stream that is left alone follows its schedule, whichever reads
fail, as long as the other tables let the wakeups pass; and from every state in which they
do, a wakeup ends and stays inside the packets. -/
theorem stream_follows_schedule {r : Resolver} {calls : InitCalls cfg} {s₀ s₁ s s' : State cfg}
    {tr₀ tr : List (State cfg × Label cfg)} {l₀ : Label cfg} {t : TblIndex cfg}
    (hN : cfg.dwellTableSize ≤ 255) (h₀ : Started r calls s₀) (run₀ : Run AnyStep s₀ tr₀ s₁)
    (first : AnyStep s₁ l₀ s) (begins : Begins l₀ t (stream s₁ t)) (run : Run AnyStep s tr s')
    (alone : EveryStep (fun _ l => Undisturbed l t) tr)
    (others : EveryStep (fun u _ => ∀ v ≠ t, Passable (u.dwellTables v)) tr) :
    Run Step s tr s' ∧ FollowsSchedule (s.dwellTables t) t (wakeups t tr) ∧
      EveryState (fun u => (∀ v ≠ t, Passable (u.dwellTables v)) → WakeupCompletes u) tr s' := by
  obtain ⟨h, he, hlog⟩ := begins_logged begins (anyStep_move first t)
  obtain ⟨us, hl⟩ := logged_run hN h he hlog run alone
  have hin₁ : ∀ v, InTable (s₁.dwellTables v) := fun v =>
    (run₀.invariant (fun _ _ _ hx st => inTable_step st v hx) (inTable_started h₀ v)).2
  have inside : EveryState (fun u => ∀ v, InTable (u.dwellTables v)) tr s' :=
    run.invariant (I := fun u => ∀ v, InTable (u.dwellTables v))
      (fun _ _ _ hu st v => inTable_step st v (hu v)) fun v => inTable_step first v (hin₁ v)
  have logged :
      EveryState (fun u => ∃ ws us, Logged (s.dwellTables t) t ws us (stream u t)) tr s' :=
    run.everyState (fun _ _ _ hu ⟨_, _, hx⟩ st =>
      ⟨_, logged_move hN h he hx hu (anyStep_move st t)⟩) ⟨[], [], hlog⟩ alone
  have complete : EveryState (fun u => (∀ v ≠ t, Passable (u.dwellTables v)) →
      ∀ v, PassCompletes v (stream u v)) tr s' := by
    apply (inside.and logged).imp
    rintro u ⟨hin, _, _, hx⟩ hothers v
    by_cases hv : v = t
    · subst hv
      exact hx.completes hN h he
    · exact passable_completes hN (hin v) (hothers v hv)
  refine ⟨?_, hl.follows h, complete.imp fun u hu hothers => wakeup_completes (hu hothers)⟩
  have every : EveryStep (fun u _ => ∀ v, PassCompletes v (stream u v)) tr :=
    fun q hq => complete.1 q hq (others q hq)
  exact (run.restrict every).imp fun _ _ _ st => step_of_completes st.1 st.2

namespace Counterexample

def config : Config := twoTables

def calls : InitCalls config := recoverAll (loadTable config 0 [loadEntry config 4 1 16])

/-- The first table is started, and a Jam that takes away its only delay is refused. -/
def inputs : List (Services config × Input config) :=
  [(smallServices config .success, startMsg config 1),
    (smallServices config (.error 1), jamMsg config 1 1 4 0 16)]

def start : Services config × Input config :=
  (smallServices config .success, startMsg config 2)

end Counterexample

/-- The first entry of the second table is due at the next wakeup, which never gets to it. -/
theorem hanging_table_stops_schedule :
    ∃ s₀ tr₀ s₁ l₀ s, Started flatMemory.resolver Counterexample.calls s₀ ∧
      Run Step s₀ tr₀ s₁ ∧ tr₀.map (fun q => Label.call q.2) = Counterexample.inputs ∧
      Label.call l₀ = Counterexample.start ∧ Step s₁ l₀ s ∧ Begins l₀ 1 (stream s₁ 1) ∧
      Due (s.dwellTables 1) 0 0 ∧ ∀ svc fuel, dwellLoop svc fuel s = none := by
  obtain ⟨s₀, tr, s, h₀, run, hks, hc⟩ := flight_run flatMemory.resolver Counterexample.calls 10
    (blankState _) (Counterexample.inputs ++ [Counterexample.start])
    (fun _ tr s => (tr.getLast?.any fun q => Begins q.2 1 (stream q.1 1)) ∧
      0 < (s.dwellTables 1).addrCount ∧ Endless (s.dwellTables 0) ∧
      (s.dwellTables 0).addrCount ≤ 3) (by decide +kernel)
  obtain ⟨hbegins, hdue, hendless, hcount⟩ := of_decide_eq_true hc
  obtain ⟨tr₀, last, rfl, htr₀, hlast⟩ := List.map_eq_append_iff.mp hks
  obtain ⟨s₁, run₀, first⟩ := run.split
  have hlen : last.length = 1 := by simpa using congrArg List.length hlast
  obtain ⟨l₀, rfl, st⟩ := first.of_length_one hlen
  refine ⟨s₀, tr₀, s₁, l₀, s, h₀, run₀, htr₀, by simpa using hlast, st,
    by simpa using hbegins, ⟨hdue, 0, by simp [delaySum]⟩, fun svc fuel => ?_⟩
  by_contra hne
  obtain ⟨w, hw⟩ := Option.ne_none_iff_exists'.mp hne
  obtain ⟨p, hp, -⟩ := dwellLoop_stream hw 0
  exact (dwellTable_ends_iff hcount _).mp ⟨fuel, p, hp⟩ hendless

/-- Two entries of the first of two tables, started and sampled at the first and the third
of three wakeups. -/
theorem stream_follows_schedule_run :
    let config := twoTables
    let tbl := loadTable config 0 [loadEntry config 2 0 16, loadEntry config 4 2 20]
    let svc := smallServices config .success
    ∃ s₀ l₀ s tr s', Started flatMemory.resolver (recoverAll tbl) s₀ ∧ Step s₀ l₀ s ∧
      Run Step s tr s' ∧ Label.call l₀ = (svc, startMsg config 1) ∧
      tr.map (fun q => Label.call q.2) = List.replicate 3 (svc, wakeupMsg config) ∧
      FollowsSchedule (s.dwellTables 0) 0 (wakeups 0 tr) := by
  intro config tbl svc
  obtain ⟨s₀, l₀, s, tr, s', h₀, first, run, hk, hks, hc⟩ := flight_first flatMemory.resolver
    (recoverAll tbl) 10 (blankState _) (svc, startMsg config 1)
    (List.replicate 3 (svc, wakeupMsg config))
    (fun s l tr _ => Begins l 0 (stream s 0) ∧ EveryStep (fun _ l => Undisturbed l 0) tr ∧
      EveryStep (fun u _ => ¬ Active (u.dwellTables 1)) tr) (by decide +kernel)
  obtain ⟨begins, alone, off⟩ := of_decide_eq_true hc
  have others : EveryStep (fun u _ => ∀ v ≠ 0, Passable (u.dwellTables v)) tr := by
    intro q hq v hv
    obtain rfl : v = 1 := Fin.eq_one_of_ne_zero v hv
    exact ⟨fun h => off q hq h.1.active, fun h => absurd h (off q hq)⟩
  obtain ⟨run, follows, -⟩ := stream_follows_schedule (by decide) h₀ (.nil s₀) first.any begins
    (run_any run) alone others
  exact ⟨s₀, l₀, s, tr, s', h₀, first, run, hk, hks, follows⟩

end SamplingSchedule
