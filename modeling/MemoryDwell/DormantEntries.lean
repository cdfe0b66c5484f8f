import MemoryDwell.StreamIsolation

/-! # Entries behind the terminator

A table ends at its first null entry. What stands behind it cannot be told from the packets,
as long as no Jam fills the null entry: a run looks the same whatever the dormant entries
are. -/
namespace DormantEntries

open DwellData DwellUtils DwellTbl DwellPkts DwellCmds DwellApp DwellRuns DwellStreams
open StreamIsolation StreamInit DwellTraces FueledLoop TransitionRuns Noninterference

variable {cfg : Config}

/-- The table ends at entry `k` or before. -/
def Fenced (k : ℕ) (c : DwellPacketControl cfg) : Prop :=
  c.addrCount ≤ k ∧ (c.entry k).length = 0

instance (k : ℕ) (c : DwellPacketControl cfg) : Decidable (Fenced k c) :=
  inferInstanceAs (Decidable (_ ∧ _))

/-- The number of entries in front of the fence, the fence included; without the fence
every entry is in front. -/
def width (k : ℕ) (c : DwellPacketControl cfg) : ℕ :=
  if Fenced k c then k + 1 else max cfg.dwellTableSize c.addrCount

def reentered (f : ℕ → DwellControlEntry) (c : DwellPacketControl cfg) : DwellPacketControl cfg :=
  { c with entry := f }

/-- The same control structure up to the fence. -/
def SameFront (k : ℕ) (c d : DwellPacketControl cfg) : Prop :=
  ∃ f, d = reentered f c ∧ ∀ i < width k c, f i = c.entry i

def front (k : ℕ) (c : DwellPacketControl cfg) : DwellPacketControl cfg :=
  reentered (fun i => if i < width k c then c.entry i else nullControlEntry) c

/-- The event is a Jam that puts a non-null entry on the fence. -/
def Fills (k : ℕ) : TableEvent cfg → Prop
  | .jam p _ _ _ => p.entryId.toNat = k + 1 ∧ p.fieldLength ≠ 0
  | _ => False

def frontObserver (t : TblIndex cfg) (k : ℕ) :
    Observer (State cfg) (Label cfg) (DwellPacketControl cfg × DwellPkt cfg) (TableEvent cfg)
      (Action cfg) where
  view s := (front k (s.dwellTables t), s.dwellPkt t)
  event l := eventOf t l.services l.input
  output l := actionsOf t l.actions

section Front

variable {k : ℕ} {c d : DwellPacketControl cfg}

theorem active_lt_width {i : ℕ} (hi : i < cfg.dwellTableSize)
    (ha : i ≤ activeLength cfg (lengths c)) : i < width k c := by
  rw [width]
  split_ifs with hf
  · by_contra hn
    have hlt : k < activeLength cfg (lengths c) := by omega
    exact active_ne_zero hlt hf.2
  · exact lt_max_of_lt_left hi

theorem read_lt_width {i : ℕ} (hi : i ≤ c.addrCount - 1) : i < width k c := by
  have hsize := cfg.size_pos
  rw [width]
  split_ifs with hf
  · have := hf.1
    omega
  · omega

theorem fence_lt_width (hk : k < cfg.dwellTableSize) : k < width k c := by
  rw [width]
  split_ifs
  · exact Nat.lt_succ_self k
  · exact lt_max_of_lt_left hk

theorem width_congr (hn : d.addrCount = c.addrCount)
    (hk : (d.entry k).length = (c.entry k).length) : width k d = width k c := by
  have hf : Fenced k d ↔ Fenced k c := by rw [Fenced, Fenced, hn, hk]
  exact if_congr hf rfl (by rw [hn])

theorem front_eq_iff (hk : k < cfg.dwellTableSize) : front k c = front k d ↔ SameFront k c d := by
  constructor
  · intro h
    have hn : d.addrCount = c.addrCount := (congrArg DwellPacketControl.addrCount h).symm
    have he : ∀ i, (if i < width k c then c.entry i else nullControlEntry) =
        if i < width k d then d.entry i else nullControlEntry :=
      fun i => congrFun (congrArg DwellPacketControl.entry h) i
    have hfence : d.entry k = c.entry k := by
      have := he k
      rw [if_pos (fence_lt_width hk), if_pos (fence_lt_width hk)] at this
      exact this.symm
    have hw : width k d = width k c := width_congr hn (congrArg _ hfence)
    refine ⟨d.entry, ?_, ?_⟩
    · obtain ⟨_, _, _, _, _, _, _, _, _⟩ := c
      obtain ⟨_, _, _, _, _, _, _, _, _⟩ := d
      simp only [front, reentered, DwellPacketControl.mk.injEq] at h
      simp only [reentered, DwellPacketControl.mk.injEq, true_and]
      tauto
    · intro i hi
      have := he i
      rw [if_pos hi, if_pos (hw ▸ hi)] at this
      exact this.symm
  · rintro ⟨f, rfl, hf⟩
    have hw : width k (reentered f c) = width k c :=
      width_congr rfl (congrArg _ (hf k (fence_lt_width hk)))
    have same : front k (reentered f c) =
        reentered (fun i => if i < width k c then f i else nullControlEntry) c := by
      rw [← hw]
      rfl
    rw [same, front]
    congr 1
    funext i
    split_ifs with hi
    · exact (hf i hi).symm
    · rfl

end Front

section Pass

variable (svc : Services cfg) (fuel : ℕ) (t : TblIndex cfg) (n : ℕ) {f : ℕ → DwellControlEntry}
  {p : Pass cfg}

def swapped (f : ℕ → DwellControlEntry) (p : Pass cfg) : Pass cfg :=
  { p with control := reentered f p.control }

theorem getDwellData_swapped {i : ℕ} (hf : f i = p.control.entry i) :
    getDwellData svc t i (swapped f p) =
      ((getDwellData svc t i p).1, swapped f (getDwellData svc t i p).2) := by
  simp only [getDwellData, fetched, swapped, reentered, hf]

theorem noteResult_swapped (i : ℕ) (result : CFEStatus) :
    noteResult t i result (swapped f p) = swapped f (noteResult t i result p) := by
  rw [noteResult, noteResult]
  split_ifs <;> rfl

theorem recounted_swapped {i : ℕ} (hf : f i = p.control.entry i) (currentEntry pktOffset : ℕ) :
    ({ swapped f p with control := { (swapped f p).control with
        countdown := ((swapped f p).control.entry i).delay.toNat
        currentEntry := currentEntry
        pktOffset := pktOffset } } : Pass cfg) =
      swapped f { p with control := { p.control with
        countdown := (p.control.entry i).delay.toNat
        currentEntry := currentEntry
        pktOffset := pktOffset } } := by
  simp only [swapped, reentered, hf]

theorem dwellStep_swapped
    (hf : f p.control.currentEntry = p.control.entry p.control.currentEntry) :
    dwellStep svc t n (swapped f p) = swapped f (dwellStep svc t n p) := by
  have hcur : (swapped f p).control.currentEntry = p.control.currentEntry := rfl
  simp only [dwellStep, hcur, getDwellData_swapped svc t hf, noteResult_swapped]
  generalize hr : noteResult t p.control.currentEntry _ _ = r
  have hentry : r.control.entry = p.control.entry := by
    rw [← hr, noteResult_control]
    rfl
  have hf' : f p.control.currentEntry = r.control.entry p.control.currentEntry := by
    rw [hentry, hf]
  split_ifs
  · exact recounted_swapped (p := sendDwellPkt t r) hf' 0 0
  · exact recounted_swapped hf' ((r.control.currentEntry + 1) % 65536) r.control.pktOffset

theorem sendFullPkt_swapped
    (hf : f (p.control.addrCount - 1) = p.control.entry (p.control.addrCount - 1)) :
    sendFullPkt t (swapped f p) = swapped f (sendFullPkt t p) := by
  have hlast : ((p.control.addrCount : ℤ) - 1).toNat = p.control.addrCount - 1 := by omega
  simp only [sendFullPkt, sendDwellPkt, swapped, reentered, hlast, hf]
  rfl

/-- A pass reads the active entries only. -/
theorem dwellTable_swapped (hf : ∀ i ≤ p.control.addrCount - 1, f i = p.control.entry i) :
    dwellTable svc fuel t (swapped f p) = (dwellTable svc fuel t p).map (swapped f) := by
  by_cases ha : p.control.enabled = dwellEnabled ∧ 0 < p.control.rate
  · by_cases hfull : p.control.addrCount ≤ p.control.currentEntry
    · rw [dwellTable_full svc fuel t ha hfull, Option.map_some,
        ← sendFullPkt_swapped t (hf _ le_rfl)]
      exact dwellTable_full svc fuel t ha hfull
    · have hlt := Nat.lt_of_not_le hfull
      have hloop : dwellTable svc fuel t (swapped f p) =
          whileLoop dwellDue (dwellStep svc t p.control.addrCount) fuel
            (swapped f (decrement p)) :=
        dwellTable_loop (p := swapped f p) svc fuel t ha hlt
      rw [hloop, dwellTable_loop svc fuel t ha hlt]
      -- Inside the loop the current entry is an active one of the table at the start.
      refine while_commute (g := swapped f) (s := decrement p)
        (I := fun r : Pass cfg => r.control.entry = p.control.entry ∧
          r.control.currentEntry < p.control.addrCount) ?_ (fun _ _ => rfl) ?_ ⟨rfl, hlt⟩ fuel
      · rintro r ⟨he, hr⟩ -
        rw [dwellStep_control]
        refine ⟨(advance_contents _ _).entry.trans he, ?_⟩
        rw [advance]
        split_ifs with hl
        · exact Nat.zero_lt_of_lt hr
        · exact (Nat.mod_le _ _).trans_lt (by omega)
      · rintro r ⟨he, hr⟩ -
        apply dwellStep_swapped
        rw [he]
        exact hf _ (by omega)
  · rw [dwellTable_off svc fuel t ha]
    exact dwellTable_off svc fuel t ha

end Pass

section Operations

variable {k : ℕ} {c d : DwellPacketControl cfg} {f : ℕ → DwellControlEntry}

theorem width_le (hk : k < cfg.dwellTableSize) (hc : c.addrCount ≤ cfg.dwellTableSize) :
    width k c ≤ cfg.dwellTableSize := by
  rw [width]
  split_ifs <;> omega

theorem width_mono (hk : k < cfg.dwellTableSize) (hfence : Fenced k c → Fenced k d)
    (hcount : d.addrCount ≤ max cfg.dwellTableSize c.addrCount) : width k d ≤ width k c := by
  by_cases hf : Fenced k c
  · rw [width, width, if_pos hf, if_pos (hfence hf)]
  · rw [width, width, if_neg hf]
    split_ifs <;> omega

theorem width_written (hk : k < cfg.dwellTableSize) {e : ℕ} {new : DwellControlEntry}
    (hfill : ¬ (e = k ∧ new.length ≠ 0)) : width k (written c e new) ≤ width k c := by
  refine width_mono hk ?_ (le_max_right _ _)
  rintro ⟨hn, hnull⟩
  refine ⟨hn, ?_⟩
  by_cases he : e = k
  · have hnew : new.length = 0 := by simpa [he] using hfill
    simp [written, he, hnew]
  · simpa [written, Ne.symm he] using hnull

theorem width_updated (hk : k < cfg.dwellTableSize) :
    width k (updateDwellControlInfo c) ≤ width k c := by
  have hcount : (updateDwellControlInfo c).addrCount = activeLength cfg (lengths c) := by
    rw [updateDwellControlInfo_eq]
  refine width_mono hk ?_ ?_
  · rintro ⟨-, hnull⟩
    refine ⟨?_, hnull⟩
    rw [hcount]
    by_contra hn
    exact active_ne_zero (Nat.lt_of_not_le hn) hnull
  · rw [hcount]
    exact (activeLength_le _ _).trans (le_max_left _ _)

theorem updated_reentered
    (hf : ∀ i < cfg.dwellTableSize, i ≤ activeLength cfg (lengths c) → f i = c.entry i) :
    updateDwellControlInfo (reentered f c) = reentered f (updateDwellControlInfo c) := by
  have hle := activeLength_le cfg (lengths c)
  have hlen : ∀ i < cfg.dwellTableSize, i ≤ activeLength cfg (lengths c) →
      lengths (reentered f c) i = lengths c i := fun i hi ha => congrArg _ (hf i hi ha)
  have hactive : activeLength cfg (lengths (reentered f c)) = activeLength cfg (lengths c) := by
    apply activeLength_unique hle
    · intro i hi
      rw [hlen i (hi.trans_le hle) hi.le]
      exact active_ne_zero hi
    · intro hlt
      rw [hlen _ hlt le_rfl]
      exact active_stops hlt
  have hsize : lengthSum (lengths (reentered f c)) (activeLength cfg (lengths c)) =
      lengthSum (lengths c) (activeLength cfg (lengths c)) :=
    lengthSum_congr fun i hi => hlen i (hi.trans_le hle) hi.le
  have hrate : delaySum (delays (reentered f c)) (activeLength cfg (lengths c)) =
      delaySum (delays c) (activeLength cfg (lengths c)) :=
    delaySum_congr fun i hi => congrArg _ (hf i (hi.trans_le hle) hi.le)
  rw [updateDwellControlInfo_eq, updateDwellControlInfo_eq]
  simp only [hactive, hsize, hrate]
  rfl

theorem SameFront.map {g : DwellPacketControl cfg → DwellPacketControl cfg}
    (h : SameFront k c d) (hg : ∀ f c, g (reentered f c) = reentered f (g c))
    (he : (g c).entry = c.entry) (hn : (g c).addrCount = c.addrCount) :
    SameFront k (g c) (g d) := by
  obtain ⟨f, rfl, hf⟩ := h
  refine ⟨f, hg f c, ?_⟩
  rwa [he, width_congr hn (by rw [he])]

theorem SameFront.written (hk : k < cfg.dwellTableSize) (h : SameFront k c d) {e : ℕ}
    {new : DwellControlEntry} (hfill : ¬ (e = k ∧ new.length ≠ 0)) :
    SameFront k (written c e new) (written d e new) := by
  obtain ⟨f, rfl, hf⟩ := h
  refine ⟨Function.update f e new, rfl, fun i hi => ?_⟩
  have hold := hf i (hi.trans_le (width_written hk hfill))
  by_cases he : i = e
  · simp [DwellStreams.written, he]
  · simpa [DwellStreams.written, he] using hold

theorem SameFront.updated (hk : k < cfg.dwellTableSize) (h : SameFront k c d) :
    SameFront k (updateDwellControlInfo c) (updateDwellControlInfo d) := by
  obtain ⟨f, rfl, hf⟩ := h
  refine ⟨f, updated_reentered fun i hi ha => hf i (active_lt_width hi ha), fun i hi => ?_⟩
  exact hf i (hi.trans_le (width_updated hk))

/-- Copies of one table are the same inside the array, whatever was there before. -/
theorem SameFront.adopt (hk : k < cfg.dwellTableSize) (h : SameFront k c d) (r : Resolver)
    (tbl : DwellTableLoad cfg) : SameFront k (adopt r tbl c) (adopt r tbl d) := by
  obtain ⟨f, rfl, -⟩ := h
  let after : ℕ → DwellControlEntry :=
    fun i => if i < cfg.dwellTableSize then copiedEntry r tbl i else f i
  have hcopy : copiedUpTo r tbl (reentered f c) cfg.dwellTableSize =
      reentered after (copiedUpTo r tbl c cfg.dwellTableSize) := rfl
  have hin : ∀ i < cfg.dwellTableSize, after i =
      (copiedUpTo r tbl c cfg.dwellTableSize).entry i := by
    intro i hi
    simp only [after, copiedUpTo, if_pos hi]
  have hcont := adopt_contents r tbl c
  refine ⟨after, ?_, ?_⟩
  · rw [DwellStreams.adopt, hcopy, updated_reentered fun i hi _ => hin i hi, DwellStreams.adopt]
    split_ifs <;> rfl
  · intro i hi
    have hcount : (DwellStreams.adopt r tbl c).addrCount ≤ cfg.dwellTableSize := by
      rw [hcont.addrCount, updateDwellControlInfo_eq]
      exact activeLength_le _ _
    rw [hcont.entry]
    exact hin i (hi.trans_le (width_le hk hcount))

theorem SameFront.pass {svc svc' : Services cfg} {t : TblIndex cfg} {fuel fuel' : ℕ}
    {pkt : DwellPkt cfg} {p p' : Pass cfg} (h : SameFront k c d)
    (hm : svc.memRead t = svc'.memRead t) (hp : dwellTable svc fuel t (.start c pkt) = some p)
    (hp' : dwellTable svc' fuel' t (.start d pkt) = some p') :
    SameFront k p.control p'.control ∧ p.pkt = p'.pkt ∧ p.actions = p'.actions := by
  obtain ⟨f, rfl, hf⟩ := h
  have hswap : dwellTable svc fuel t (.start (reentered f c) pkt) = some (swapped f p) := by
    have := dwellTable_swapped svc fuel t (p := .start c pkt) fun i hi => hf i (read_lt_width hi)
    rw [hp] at this
    exact this
  obtain rfl := dwellTable_deterministic hm hswap hp'
  have hcont : SameContents c p.control := dwellTable_contents hp
  refine ⟨⟨f, rfl, ?_⟩, rfl, rfl⟩
  rwa [hcont.entry, width_congr hcont.addrCount (by rw [hcont.entry])]

/-- An operation that does not fill the fence treats the two tables alike. -/
theorem step_front {svc svc' : Services cfg} {t : TblIndex cfg} {x y x' y' : Stream cfg}
    {as as' : List (Action cfg)} {op : StreamOp cfg} (hk : k < cfg.dwellTableSize)
    (h : StreamStep svc t x as x' op) (h' : StreamStep svc' t y as' y' op)
    (hx : SameFront k x.control y.control) (hpkt : x.pkt = y.pkt)
    (hm : op = .pass → svc.memRead t = svc'.memRead t)
    (hr : ∀ tbl copied, op = .load tbl copied → svc.toResolver = svc'.toResolver)
    (hfill : ∀ e new load granted, op = .jam e new load granted → ¬ (e = k ∧ new.length ≠ 0)) :
    SameFront k x'.control y'.control ∧ x'.pkt = y'.pkt ∧ as = as' := by
  cases op with
  | idle =>
    obtain ⟨rfl, rfl⟩ := h
    obtain ⟨rfl, rfl⟩ := h'
    exact ⟨hx, hpkt, rfl⟩
  | start granted =>
    obtain ⟨rfl, rfl⟩ := h
    obtain ⟨rfl, rfl⟩ := h'
    exact ⟨hx.map (g := switchControl dwellEnabled 1) (fun _ _ => rfl) rfl rfl, hpkt, rfl⟩
  | stop granted =>
    obtain ⟨rfl, rfl⟩ := h
    obtain ⟨rfl, rfl⟩ := h'
    exact ⟨hx.map (g := switchControl dwellDisabled 0) (fun _ _ => rfl) rfl rfl, hpkt, rfl⟩
  | sign signature granted =>
    obtain ⟨rfl, rfl⟩ := h
    obtain ⟨rfl, rfl⟩ := h'
    refine ⟨?_, hpkt, rfl⟩
    exact hx.map (g := fun c => { c with signature := c.signature.copyTerminated signature })
      (fun _ _ => rfl) rfl rfl
  | jam e new load granted =>
    obtain ⟨rfl, rfl⟩ := h
    obtain ⟨rfl, rfl⟩ := h'
    have hw := hx.written hk (hfill e new load granted rfl)
    cases granted with
    | true => exact ⟨hw.updated hk, hpkt, rfl⟩
    | false => exact ⟨hw, hpkt, rfl⟩
  | load tbl copied =>
    obtain ⟨rfl, rfl, -⟩ := h
    obtain ⟨rfl, rfl, -⟩ := h'
    rw [hr tbl copied rfl]
    cases copied with
    | true => exact ⟨hx.adopt hk _ tbl, hpkt, rfl⟩
    | false => exact ⟨hx, hpkt, rfl⟩
  | pass =>
    obtain ⟨fuel, p, hp, rfl, rfl⟩ := h
    obtain ⟨fuel', p', hp', rfl, rfl⟩ := h'
    rw [← hpkt] at hp'
    exact hx.pass (hm rfl) hp hp'

end Operations

section Events

variable {l l' : Label cfg} {t : TblIndex cfg} {e : TableEvent cfg}

theorem event_jam (he : eventOf t l.services l.input = some e) {i : ℕ} {new : DwellControlEntry}
    {load : TableLoadEntry cfg} {granted : Bool} (hop : opOf l t = .jam i new load granted)
    (h0 : new.length ≠ 0) : Fills i e := by
  have hf := event_follows he
  cases e with
  | wakeup memRead => exact absurd (hf.2.symm.trans hop) (by simp)
  | start access => exact absurd (hf.2.symm.trans hop) (by simp)
  | stop access => exact absurd (hf.2.symm.trans hop) (by simp)
  | jam p resolver access messageStringGet =>
    have hjam := hf.2.2.2.symm.trans hop
    rw [jamOp] at hjam
    split_ifs at hjam
    split at hjam
    · cases hjam
    next new' load' hw =>
      cases hjam
      have hid : validEntryId cfg p.entryId = true := by
        by_contra hn
        rw [jamWrite, if_pos hn] at hw
        cases hw
      simp only [validEntryId, Bool.and_eq_true, decide_eq_true_eq] at hid
      rcases jamWrite_cases hw with ⟨rfl, -⟩ | ⟨a, hlen, -, rfl, -⟩
      · exact absurd rfl h0
      · exact ⟨by omega, hlen⟩
  | setSignature p access =>
    have hsign := hf.2.symm.trans hop
    rw [signOp] at hsign
    split_ifs at hsign
  | manage calls resolver =>
    rw [opOf, hf.2] at hop
    rcases installOp_cases t l.actions with h | ⟨tbl, copied, h⟩ <;> rw [h] at hop <;> cases hop

end Events

def Unfilled (t : TblIndex cfg) (k : ℕ) (l : Label cfg) : Prop :=
  ∀ e, eventOf t l.services l.input = some e → ¬ Fills k e

theorem frontObserver_isolated (t : TblIndex cfg) {k : ℕ} (hk : k < cfg.dwellTableSize) :
    Isolated (fun (s : State cfg) l s' => Unfilled t k l ∧ Step s l s') (frontObserver t k) := by
  constructor
  · rintro s l s' ⟨-, st⟩ h
    obtain ⟨hview, hout⟩ := (tableObserver_isolated t).silent st h
    refine ⟨?_, hout⟩
    exact congrArg (fun x : Stream cfg => (front k x.control, x.pkt)) hview
  · rintro s l r s' l' r' e ⟨hu, st⟩ ⟨-, st'⟩ hv he he'
    obtain ⟨hop, hm, hr⟩ := event_op st st' he he'
    have hs := (step_move st t).step
    have hs' := (step_move st' t).step
    rw [← hop] at hs'
    obtain ⟨hfront, hpkt⟩ := Prod.mk.inj hv
    obtain ⟨hfront', hpkt', hout⟩ := step_front hk hs hs' ((front_eq_iff hk).mp hfront) hpkt hm hr
      fun i new load granted hjam hfill => hu e he (hfill.1 ▸ event_jam he hjam hfill.2)
    exact ⟨Prod.ext ((front_eq_iff hk).mpr hfront') hpkt', hout⟩

theorem adopt_sameFront {r : Resolver} {tbl tbl' : DwellTableLoad cfg} {k : ℕ}
    (hk : k < cfg.dwellTableSize) (he : tbl'.enabled = tbl.enabled)
    (hs : tbl'.signature = tbl.signature) (hentry : ∀ i ≤ k, tbl'.entry i = tbl.entry i)
    (hnull : (tbl.entry k).length = 0) (c : DwellPacketControl cfg) :
    SameFront k (adopt r tbl c) (adopt r tbl' c) := by
  have haddr : ∀ i ≤ k + 1, addrAfter r tbl' i = addrAfter r tbl i := by
    intro i
    induction i with
    | zero => exact fun _ => rfl
    | succ i ih =>
      intro hi
      rw [addrAfter, addrAfter, hentry i (by omega), ih (by omega)]
  let after : ℕ → DwellControlEntry := (copiedUpTo r tbl' c cfg.dwellTableSize).entry
  have hcopy : copiedUpTo r tbl' c cfg.dwellTableSize =
      reentered after (copiedUpTo r tbl c cfg.dwellTableSize) := by
    simp only [after, copiedUpTo, reentered, he, hs]
  have hfront : ∀ i ≤ k, after i = (copiedUpTo r tbl c cfg.dwellTableSize).entry i := by
    intro i hi
    have hlt : i < cfg.dwellTableSize := by omega
    simp only [after, copiedUpTo, if_pos hlt, copiedEntry, hentry i hi, haddr (i + 1) (by omega)]
  have hactive : activeLength cfg (lengths (copiedUpTo r tbl c cfg.dwellTableSize)) ≤ k := by
    rw [activeLength_copied]
    by_contra hn
    exact active_ne_zero (Nat.lt_of_not_le hn) hnull
  have hcont := adopt_contents r tbl c
  have hfenced : Fenced k (adopt r tbl c) := by
    refine ⟨?_, ?_⟩
    · rw [hcont.addrCount, updateDwellControlInfo_eq]
      exact hactive
    · rw [hcont.entry, updateDwellControlInfo_entry]
      exact (lengths_copied r tbl c hk).trans hnull
  refine ⟨after, ?_, ?_⟩
  · rw [adopt, hcopy, updated_reentered fun i _ ha => hfront i (ha.trans hactive), he, adopt]
    split_ifs <;> rfl
  · intro i hi
    rw [width, if_pos hfenced] at hi
    rw [hcont.entry]
    exact hfront i (by omega)

end DormantEntries
