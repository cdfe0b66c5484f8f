import MemoryDwell.DwellData
import MemoryDwell.PrefixSums

/-! # Utilities (md_utils.c) -/
namespace DwellUtils

open DwellData PrefixSums Finset

variable {cfg : Config}

/-- Table ids count from one. -/
def tableIsInMask (tableId : ℕ) (tableMask : UInt16) : Bool :=
  let localMask := tableMask.toNat
  let localMask := if tableId - 1 ≠ 0 then localMask >>> (tableId - 1) else localMask
  localMask &&& 1 == 1

structure Totals where
  addrCount : ℕ
  dataSize : ℕ
  rate : ℕ
  deriving DecidableEq, Repr

/-- The loop of MD_UpdateDwellControlInfo and of MD_ReadDwellTable, with `left` turns
left: index, count and size are `uint16`, the rate is `uint32`. -/
def sumLoop (n : ℕ) (length delay : ℕ → UInt16) : ℕ → ℕ → Totals → Totals
  | 0, _, t => t
  | left + 1, entryIndex, t =>
    if entryIndex < n ∧ length entryIndex ≠ 0 then
      sumLoop n length delay left ((entryIndex + 1) % 65536)
        { addrCount := (t.addrCount + 1) % 65536
          dataSize := (t.dataSize + (length entryIndex).toNat) % 65536
          rate := (t.rate + (delay entryIndex).toNat) % 4294967296 }
    else t

/-- The number of entries before the terminator. -/
def activeLength (cfg : Config) (length : ℕ → UInt16) : ℕ :=
  prefixLength (fun i => length i != 0) cfg.dwellTableSize

def lengthSum (length : ℕ → UInt16) (k : ℕ) : ℕ := ∑ i ∈ range k, (length i).toNat
def delaySum (delay : ℕ → UInt16) (k : ℕ) : ℕ := ∑ i ∈ range k, (delay i).toNat

abbrev lengths (c : DwellPacketControl cfg) : ℕ → UInt16 := fun i => (c.entry i).length
abbrev delays (c : DwellPacketControl cfg) : ℕ → UInt16 := fun i => (c.entry i).delay

def updateDwellControlInfo (c : DwellPacketControl cfg) : DwellPacketControl cfg :=
  let t := sumLoop cfg.dwellTableSize (lengths c) (delays c) cfg.dwellTableSize 0 ⟨0, 0, 0⟩
  { c with addrCount := t.addrCount, dataSize := t.dataSize, rate := t.rate }

def validEntryId (cfg : Config) (entryId : UInt16) : Bool :=
  1 ≤ entryId.toNat && entryId.toNat ≤ cfg.dwellTableSize

def validTableId (cfg : Config) (tableId : UInt16) : Bool :=
  1 ≤ tableId.toNat && tableId.toNat ≤ cfg.numDwellTables

def validAddrRange (r : Resolver) (site addr size : ℕ) : Bool := r.memValidateRange site addr size

def validFieldLength (fieldLength : UInt16) : Bool :=
  fieldLength == 0 || fieldLength == 1 || fieldLength == 2 || fieldLength == 4

def verifyAligned (unit address size : ℕ) : Bool :=
  if address % unit ≠ 0 then false else if size % unit ≠ 0 then false else true

def verify32Aligned (address size : ℕ) : Bool := verifyAligned 4 address size
def verify16Aligned (address size : ℕ) : Bool := verifyAligned 2 address size

/-- Returns success and the output variable, whose old value is `resolvedAddr`. The lookup
gets the bytes of the field before the first NUL. Without one the name goes on behind the
field; what stands there differs from place to place and comes in with the resolver. -/
def resolveSymAddr (r : Resolver) (site : ℕ) (symAddr : SymAddr cfg) (resolvedAddr : ℕ) :
    Bool × ℕ :=
  if symAddr.symName.cstr.length = 0 then (true, symAddr.offset)
  else
    let (found, addr) := r.symbolLookup site symAddr.symName.cstr resolvedAddr
    if found then (true, (addr + symAddr.offset) % 2 ^ cfg.addrWidth) else (false, addr)

theorem resolveSymAddr_map (m : MemoryMap) (site : ℕ) (a : SymAddr cfg) (old : ℕ) :
    resolveSymAddr m.resolver site a old =
      match m.resolve a with
      | some addr => (true, addr)
      | none => (false, old) := by
  unfold resolveSymAddr MemoryMap.resolve MemoryMap.resolver
  split
  · rfl
  · cases h : m.symbols a.symName.cstr <;> simp [h]

theorem resolveSymAddr_reader (m : MemoryMap) (behind : ℕ → List UInt8) (site : ℕ)
    (a : SymAddr cfg) (old : ℕ) :
    resolveSymAddr (m.reader cfg.maxPathLen behind) site a old =
      match m.resolveAt (behind site) a with
      | some addr => (true, addr)
      | none => (false, old) := by
  unfold resolveSymAddr MemoryMap.resolveAt MemoryMap.reader MemoryMap.resolver
  split
  · rfl
  · cases h : m.symbols (readOn cfg.maxPathLen a.symName.cstr (behind site)) <;> simp [h]

theorem reader_nil (m : MemoryMap) (pathLen : ℕ) :
    m.reader pathLen (fun _ => []) = m.resolver := by
  have hname : ∀ name, readOn pathLen name [] = name := by
    intro name
    simp [readOn]
  simp only [MemoryMap.reader, hname]

/-- What stands behind a name makes no difference if the name ends in its field. -/
theorem resolveAt_terminated (m : MemoryMap) (behind : List UInt8) {a : SymAddr cfg}
    (h : a.symName.Terminated) : m.resolveAt behind a = m.resolve a := by
  rw [MemoryMap.resolveAt, MemoryMap.resolve, readOn, if_pos (CharField.cstr_length_lt h)]

theorem length_of_unterminated {n : ℕ} {f : CharField n} (h : ¬ f.Terminated) :
    ¬ f.cstr.length < n := fun hlt => h (CharField.cstr_length_lt_iff.mp hlt)

theorem within_resolve (m : MemoryMap) (symAddr : SymAddr cfg) (a : ℕ) :
    (m.within cfg.maxPathLen).resolve symAddr = some a ↔
      symAddr.symName.Terminated ∧ m.resolve symAddr = some a := by
  rw [MemoryMap.resolve, MemoryMap.resolve, ← CharField.cstr_length_lt_iff]
  by_cases h0 : symAddr.symName.cstr.length = 0
  · have hpos := cfg.path_pos
    rw [if_pos h0, if_pos h0, and_iff_right (by omega)]
  · rw [if_neg h0, if_neg h0]
    by_cases hlt : symAddr.symName.cstr.length < cfg.maxPathLen
    · simp [MemoryMap.within, hlt]
    · simp [MemoryMap.within, hlt]

theorem resolve_congr (m : MemoryMap) {a b : SymAddr cfg} (ho : a.offset = b.offset)
    (hn : a.symName.cstr = b.symName.cstr) : m.resolve a = m.resolve b := by
  simp only [MemoryMap.resolve, ho, hn]

theorem sumLoop_eq {n : ℕ} (hn : n ≤ 65535) (length delay : ℕ → UInt16) :
    sumLoop n length delay n 0 ⟨0, 0, 0⟩ =
      let k := prefixLength (fun i => length i != 0) n
      ⟨k, lengthSum length k % 65536, delaySum delay k % 4294967296⟩ := by
  -- On turn `i` the totals are those of the first `i` entries, none of them null.
  have main : ∀ left i, i + left = n → (∀ j < i, length j ≠ 0) →
      sumLoop n length delay left i
        ⟨i, lengthSum length i % 65536, delaySum delay i % 4294967296⟩ =
      let k := prefixLength (fun i => length i != 0) n
      ⟨k, lengthSum length k % 65536, delaySum delay k % 4294967296⟩ := by
    intro left
    induction left with
    | zero =>
      intro i hi hz
      have hk : prefixLength (fun i => length i != 0) n = i :=
        prefix_unique (by omega) (fun j hj => by simpa using hz j hj) (fun h => by omega)
      simp only [sumLoop, hk]
    | succ left ih =>
      intro i hi hz
      by_cases h0 : length i = 0
      · have hk : prefixLength (fun i => length i != 0) n = i :=
          prefix_unique (by omega) (fun j hj => by simpa using hz j hj) (fun _ => by simp [h0])
        simp only [sumLoop, hk, h0, ne_eq, not_true, and_false, if_false]
      · have next := ih (i + 1) (by omega) (fun j hj => by
          rcases Nat.lt_succ_iff_lt_or_eq.mp hj with hj | rfl
          · exact hz j hj
          · exact h0)
        have hi' : (i + 1) % 65536 = i + 1 := Nat.mod_eq_of_lt (by omega)
        have hls : (lengthSum length i % 65536 + (length i).toNat) % 65536 =
            lengthSum length (i + 1) % 65536 := by
          rw [lengthSum, lengthSum, sum_range_succ, Nat.mod_add_mod]
        have hds : (delaySum delay i % 4294967296 + (delay i).toNat) % 4294967296 =
            delaySum delay (i + 1) % 4294967296 := by
          rw [delaySum, delaySum, sum_range_succ, Nat.mod_add_mod]
        rw [sumLoop, if_pos ⟨by omega, h0⟩, hi', hls, hds]
        exact next
  simpa [lengthSum, delaySum] using main n 0 (by omega) (fun j hj => by omega)

/-- At most 65535 entries with `uint16` delays: the rate never wraps. -/
theorem delaySum_lt (delay : ℕ → UInt16) {k : ℕ} (hk : k ≤ 65535) :
    delaySum delay k < 4294967296 := by
  have hs : delaySum delay k ≤ k * 65535 :=
    sum_range_le fun i _ => by have := (delay i).toNat_lt; omega
  have hm := Nat.mul_le_mul_right 65535 hk
  omega

theorem activeLength_le (cfg : Config) (length : ℕ → UInt16) :
    activeLength cfg length ≤ cfg.dwellTableSize := prefix_le _ _

theorem active_ne_zero {length : ℕ → UInt16} {i : ℕ} (h : i < activeLength cfg length) :
    length i ≠ 0 := by
  simpa using prefix_holds h

theorem active_stops {length : ℕ → UInt16} (h : activeLength cfg length < cfg.dwellTableSize) :
    length (activeLength cfg length) = 0 := by
  simpa [activeLength] using prefix_stops h

theorem activeLength_unique {length : ℕ → UInt16} {k : ℕ} (hk : k ≤ cfg.dwellTableSize)
    (holds : ∀ i < k, length i ≠ 0) (stops : k < cfg.dwellTableSize → length k = 0) :
    activeLength cfg length = k :=
  prefix_unique hk (fun i hi => by simpa using holds i hi) (fun h => by simpa using stops h)

theorem activeLength_congr {l l' : ℕ → UInt16} (h : ∀ i < cfg.dwellTableSize, l i = l' i) :
    activeLength cfg l = activeLength cfg l' :=
  prefix_congr fun i hi => by rw [h i hi]

theorem activeLength_eq_zero {l : ℕ → UInt16} (h : l 0 = 0) : activeLength cfg l = 0 :=
  activeLength_unique (Nat.zero_le _) (fun i hi => absurd hi (Nat.not_lt_zero i)) (fun _ => h)

theorem lt_activeLength {length : ℕ → UInt16} {i : ℕ} :
    i < activeLength cfg length ↔ i < cfg.dwellTableSize ∧ ∀ j ≤ i, length j ≠ 0 := by
  constructor
  · intro h
    exact ⟨h.trans_le (activeLength_le cfg length), fun j hj => active_ne_zero (hj.trans_lt h)⟩
  · rintro ⟨hi, hl⟩
    exact le_prefix hi fun j hj => by simpa using hl j (Nat.le_of_lt_succ hj)

/-! Changing one length. -/

theorem activeLength_update_behind {l : ℕ → UInt16} {e : ℕ} (v : UInt16)
    (h : activeLength cfg l < e) :
    activeLength cfg (Function.update l e v) = activeLength cfg l := by
  apply activeLength_unique (activeLength_le cfg l)
  · intro i hi
    rw [Function.update_of_ne (by omega)]
    exact active_ne_zero hi
  · intro hs
    rw [Function.update_of_ne (by omega)]
    exact active_stops hs

theorem activeLength_update_null {l : ℕ → UInt16} {e : ℕ} (h : e ≤ activeLength cfg l) :
    activeLength cfg (Function.update l e 0) = e := by
  apply activeLength_unique (h.trans (activeLength_le cfg l))
  · intro i hi
    rw [Function.update_of_ne (by omega)]
    exact active_ne_zero (hi.trans_le h)
  · intro _
    rw [Function.update_self]

theorem activeLength_update_terminator {l : ℕ → UInt16} {e : ℕ} {v : UInt16} (hv : v ≠ 0)
    (he : activeLength cfg l = e) (hn : e < cfg.dwellTableSize) :
    e < activeLength cfg (Function.update l e v) := by
  apply le_prefix (show e + 1 ≤ _ by omega)
  intro i hi
  by_cases hie : i = e
  · simpa [hie] using hv
  · have hi : i < activeLength cfg l := by omega
    simpa [Function.update_of_ne hie] using active_ne_zero hi

theorem lengthSum_congr {l l' : ℕ → UInt16} {k : ℕ} (h : ∀ i < k, l i = l' i) :
    lengthSum l k = lengthSum l' k :=
  sum_congr rfl fun i hi => by rw [h i (mem_range.mp hi)]

theorem delaySum_congr {l l' : ℕ → UInt16} {k : ℕ} (h : ∀ i < k, l i = l' i) :
    delaySum l k = delaySum l' k :=
  sum_congr rfl fun i hi => by rw [h i (mem_range.mp hi)]

private theorem sum_update {l : ℕ → UInt16} {k e : ℕ} (v : UInt16) (he : e < k) :
    ∑ i ∈ range k, (Function.update l e v i).toNat + (l e).toNat =
      ∑ i ∈ range k, (l i).toNat + v.toNat := by
  have hf : (fun i => (Function.update l e v i).toNat) =
      Function.update (fun i => (l i).toNat) e v.toNat := by
    funext i
    by_cases hi : i = e
    · simp [hi]
    · simp [hi]
  rw [hf]
  exact sum_range_update (fun i => (l i).toNat) v.toNat he

theorem lengthSum_update {l : ℕ → UInt16} {k e : ℕ} (v : UInt16) (he : e < k) :
    lengthSum (Function.update l e v) k + (l e).toNat = lengthSum l k + v.toNat :=
  sum_update v he

theorem delaySum_update {l : ℕ → UInt16} {k e : ℕ} (v : UInt16) (he : e < k) :
    delaySum (Function.update l e v) k + (l e).toNat = delaySum l k + v.toNat :=
  sum_update v he

/-- What the summary fields mean: the active entries, and the sums over them. The
size is the sum as `uint16` holds it, the rate is exact. -/
theorem updateDwellControlInfo_eq (c : DwellPacketControl cfg) :
    updateDwellControlInfo c =
      let k := activeLength cfg (lengths c)
      { c with
        addrCount := k
        dataSize := lengthSum (lengths c) k % 65536
        rate := delaySum (delays c) k } := by
  have hk := activeLength_le cfg (lengths c)
  have hd := delaySum_lt (delays c) (hk.trans cfg.size_le)
  simp only [updateDwellControlInfo, sumLoop_eq cfg.size_le]
  congr 1
  exact Nat.mod_eq_of_lt hd

@[simp] theorem updateDwellControlInfo_entry (c : DwellPacketControl cfg) :
    (updateDwellControlInfo c).entry = c.entry := rfl
@[simp] theorem updateDwellControlInfo_enabled (c : DwellPacketControl cfg) :
    (updateDwellControlInfo c).enabled = c.enabled := rfl
@[simp] theorem updateDwellControlInfo_countdown (c : DwellPacketControl cfg) :
    (updateDwellControlInfo c).countdown = c.countdown := rfl
@[simp] theorem updateDwellControlInfo_pktOffset (c : DwellPacketControl cfg) :
    (updateDwellControlInfo c).pktOffset = c.pktOffset := rfl
@[simp] theorem updateDwellControlInfo_currentEntry (c : DwellPacketControl cfg) :
    (updateDwellControlInfo c).currentEntry = c.currentEntry := rfl
@[simp] theorem updateDwellControlInfo_signature (c : DwellPacketControl cfg) :
    (updateDwellControlInfo c).signature = c.signature := rfl

theorem validFieldLength_iff (l : UInt16) :
    validFieldLength l = true ↔ l = 0 ∨ l = 1 ∨ l = 2 ∨ l = 4 := by
  simp [validFieldLength, or_assoc]

theorem verifyAligned_iff (unit address size : ℕ) :
    verifyAligned unit address size = true ↔ address % unit = 0 ∧ size % unit = 0 := by
  rw [verifyAligned]
  split_ifs <;> simp_all

theorem tableIsInMask_eq (tableId : ℕ) (mask : UInt16) :
    tableIsInMask tableId mask = mask.toNat.testBit (tableId - 1) := by
  simp only [tableIsInMask, Nat.testBit]
  split_ifs with h
  · simp [Nat.and_comm]
  · simp only [ne_eq, not_not] at h
    simp [h, Nat.and_comm]

end DwellUtils
