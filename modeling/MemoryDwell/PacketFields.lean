import MemoryDwell.CollectedBytes
import MemoryDwell.PacketProvenance
import MemoryDwell.StreamIsolation

/-! # Reading a packet on the ground

The ground knows the lengths in a table and cuts the data of its packets accordingly. As
long as the entries stay as they are, each field is the last successful reading of its
entry, and no field runs into another. -/
namespace PacketFields

open DwellData DwellUtils DwellPkts DwellApp DwellRuns DwellStreams DwellTraces PacketBounds
open CollectedBytes PacketProvenance StreamIsolation TransitionRuns Replay

variable {cfg : Config}

def fieldOf (c : DwellPacketControl cfg) (i : ℕ) (pkt : DwellPkt cfg) : List UInt8 :=
  (List.range (lengths c i).toNat).map fun b => pkt.data (lengthSum (lengths c) i + b)

/-- What a sample of entry `i` has read. -/
def reading (t : TblIndex cfg) (c : DwellPacketControl cfg) (i : ℕ) :
    Action cfg → Option (List UInt8)
  | .sample u k _ _ (some bytes) =>
    if u = t ∧ k = i then some ((List.range (lengths c i).toNat).map bytes) else none
  | _ => none

/-- The entries stay as they are. -/
def Unedited : StreamOp cfg → Prop
  | .jam _ _ _ _ | .load _ true => False
  | _ => True

instance (op : StreamOp cfg) : Decidable (Unedited op) := by
  unfold Unedited
  rcases op with _ | _ | _ | ⟨_, _, _, _ | _⟩ | _ | ⟨_, _ | _⟩ | _ <;> infer_instance

/-- The samples go to the places of their entries. -/
def Placed (t : TblIndex cfg) (c : DwellPacketControl cfg) (acts : List (Action cfg)) : Prop :=
  ∀ k offset numBytes data, .sample t k offset numBytes data ∈ acts →
    k < c.addrCount ∧ offset = lengthSum (lengths c) k ∧ numBytes = (lengths c k).toNat

/-- The same entries, with the position where they say. -/
structure SameEntries (c d : DwellPacketControl cfg) : Prop where
  books : Books d
  entry : d.entry = c.entry
  addrCount : d.addrCount = c.addrCount

section Pass

variable {svc : Services cfg} {t : TblIndex cfg} {c : DwellPacketControl cfg}

theorem books_place_le (hb : Books c) {k : ℕ} (hk : k ≤ c.addrCount) :
    lengthSum (lengths c) k ≤ k * 4 :=
  PrefixSums.sum_range_le fun i hi => hb.short i (hi.trans_le (hk.trans hb.bound))

theorem books_place_end (hb : Books c) {k : ℕ} (hk : k < c.addrCount) :
    lengthSum (lengths c) k + (lengths c k).toNat ≤ dataBytes cfg := by
  have hlast := books_place_le (k := k + 1) hb hk
  have hbound := hb.bound
  rw [DwellTurns.lengthSum_succ] at hlast
  rw [dataBytes]
  omega

theorem inLoop_placed (hN : cfg.dwellTableSize ≤ 16383) (hb : Books c) (ha : Active c)
    (hc : c.currentEntry < c.addrCount) {pkt : DwellPkt cfg} {q : Pass cfg}
    (h : InLoop svc t (.start c pkt) q) : Placed t c q.actions := by
  induction h with
  | enter => simp [Placed, decrement]
  | @turn q hq _ ih =>
    have hcol : Collecting c q := inLoop_collecting (p := .start c pkt) hb ha hc hq
    intro k offset numBytes data hmem
    rw [dwellStep_actions, List.mem_append] at hmem
    rcases hmem with hmem | hmem
    · exact ih k offset numBytes data hmem
    · rcases List.mem_cons.mp hmem with hmem | hmem
      · obtain ⟨-, rfl, rfl, rfl, -⟩ := Action.sample.inj hmem
        have hsize := hcol.current.trans_le hb.bound
        have hplace := books_place_le hb hcol.current.le
        have hshort : (lengths c q.control.currentEntry).toNat ≤ 4 := hb.short _ hsize
        have hlen : (q.control.entry q.control.currentEntry).length.toNat =
            (lengths c q.control.currentEntry).toNat := by
          rw [hcol.contents.entry]
        refine ⟨hcol.current, ?_, ?_⟩
        · rw [hcol.offset]
          apply Nat.mod_eq_of_lt
          omega
        · rw [hlen]
          apply Nat.mod_eq_of_lt
          omega
      · split_ifs at hmem <;> simp at hmem

theorem placed_pass (hN : cfg.dwellTableSize ≤ 16383) (hb : Books c) {pkt : DwellPkt cfg}
    {fuel : ℕ} {q : Pass cfg} (h : dwellTable svc fuel t (.start c pkt) = some q) :
    Placed t c q.actions := by
  rcases dwellTable_cases h with ⟨-, rfl⟩ | ⟨-, -, -, rfl⟩ | ⟨he, hr, hc, hw⟩
  · simp [Placed]
  · simp [Placed, sendFullPkt, sendDwellPkt]
  · exact inLoop_placed hN hb ⟨he, hr⟩ hc (while_inLoop hw)

theorem Placed.congr {d : DwellPacketControl cfg} (he : d.entry = c.entry)
    (hn : d.addrCount = c.addrCount) {acts : List (Action cfg)} (h : Placed t d acts) :
    Placed t c acts := by
  have hl : lengths d = lengths c := congrArg (fun e i => DwellControlEntry.length (e i)) he
  intro k offset numBytes data hmem
  have hk := h k offset numBytes data hmem
  rwa [hl, hn] at hk

theorem step_placed (hN : cfg.dwellTableSize ≤ 16383) {x y : Stream cfg}
    {acts : List (Action cfg)} {op : StreamOp cfg} (h : StreamStep svc t x acts y op)
    (hu : Unedited op) (hx : SameEntries c x.control) :
    SameEntries c y.control ∧ Placed t c acts := by
  have hb := hx.books
  have quiet : Placed t c [] := by simp [Placed]
  cases op with
  | idle =>
    obtain ⟨rfl, rfl⟩ := h
    exact ⟨hx, quiet⟩
  | start granted =>
    obtain ⟨rfl, rfl⟩ := h
    exact ⟨⟨.reset hb.bound hb.short hb.dataSize rfl rfl, hx.entry, hx.addrCount⟩, quiet⟩
  | stop granted =>
    obtain ⟨rfl, rfl⟩ := h
    exact ⟨⟨.reset hb.bound hb.short hb.dataSize rfl rfl, hx.entry, hx.addrCount⟩, quiet⟩
  | sign signature granted =>
    obtain ⟨rfl, rfl⟩ := h
    refine ⟨⟨⟨hb.bound, hb.short, hb.dataSize, fun ha => ?_⟩, hx.entry, hx.addrCount⟩, quiet⟩
    exact ⟨(hb.collected ha).nominal, (hb.collected ha).full⟩
  | jam e new load granted => exact hu.elim
  | load tbl copied =>
    obtain ⟨rfl, rfl, -⟩ := h
    cases copied with
    | true => exact hu.elim
    | false => exact ⟨hx, quiet⟩
  | pass =>
    obtain ⟨fuel, q, hq, rfl, rfl⟩ := h
    have hcont := dwellTable_contents hq
    refine ⟨⟨books_pass hb hq, ?_, ?_⟩, (placed_pass hN hb hq).congr hx.entry hx.addrCount⟩
    · exact hcont.entry.trans hx.entry
    · exact hcont.addrCount.trans hx.addrCount

end Pass

theorem run_placed (hN : cfg.dwellTableSize ≤ 16383) {s s' : State cfg}
    {tr : List (State cfg × Label cfg)} {t : TblIndex cfg} (run : Run AnyStep s tr s')
    (hb : Books (s.dwellTables t)) (hu : EveryStep (fun _ l => Unedited (opOf l t)) tr) :
    SameEntries (s.dwellTables t) (s'.dwellTables t) ∧
      Placed t (s.dwellTables t) (actionLog tr) := by
  induction run with
  | nil => exact ⟨⟨hb, rfl, rfl⟩, by simp [Placed, actionLog]⟩
  | @snoc u v tr l run st ih =>
    obtain ⟨hu, hl⟩ := everyStep_snoc.mp hu
    obtain ⟨hsame, hplaced⟩ := ih hu
    obtain ⟨fuel, he⟩ := st
    obtain ⟨hnext, hnew⟩ := step_placed hN (exec_stream he t) hl hsame
    refine ⟨hnext, fun k offset numBytes data hmem => ?_⟩
    have hlog : actionLog (tr ++ [(u, l)]) = actionLog tr ++ l.actions := by simp [actionLog]
    rw [hlog, List.mem_append] at hmem
    rcases hmem with hmem | hmem
    · exact hplaced k offset numBytes data hmem
    · exact hnew k offset numBytes data (List.mem_filter.mpr ⟨hmem, by simp [actionTable]⟩)

/-- In placed samples the bytes of a field are written together, and by its entry only. -/
theorem fieldOf_lastWrite {t : TblIndex cfg} {c : DwellPacketControl cfg} {i : ℕ}
    {acts : List (Action cfg)} (hp : Placed t c acts) (pkt : DwellPkt cfg) :
    (List.range (lengths c i).toNat).map (fun b =>
        lastWrite (wroteByte t (lengthSum (lengths c) i + b))
          (pkt.data (lengthSum (lengths c) i + b)) acts) =
      lastWrite (reading t c i) (fieldOf c i pkt) acts := by
  apply lastWrite_block fun b => pkt.data (lengthSum (lengths c) i + b)
  intro a ha
  cases a with
  | sample u k offset numBytes data =>
    cases data with
    | none => exact Or.inl ⟨rfl, fun _ _ => rfl⟩
    | some bytes =>
      by_cases hut : u = t
      · subst hut
        obtain ⟨-, rfl, rfl⟩ := hp k offset numBytes (some bytes) ha
        by_cases hk : k = i
        · subst hk
          refine Or.inr ⟨bytes, by simp [reading], fun b hb => ?_⟩
          simp [wroteByte, hb]
        · refine Or.inl ⟨by simp [reading, hk], fun b hb => ?_⟩
          simp only [wroteByte, true_and]
          rw [if_neg]
          rintro ⟨hlo, hhi⟩
          have hin := Nat.add_lt_add_left hb (lengthSum (lengths c) i)
          exact hk (PrefixSums.place_unique hlo hhi (Nat.le_add_right _ b) hin)
      · exact Or.inl ⟨by simp [reading, hut], fun _ _ => by simp [wroteByte, hut]⟩
  | _ => exact Or.inl ⟨rfl, fun _ _ => rfl⟩

end PacketFields
