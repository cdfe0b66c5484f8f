import MemoryDwell.InitialCopies
import MemoryDwell.Replay

/-! # Histories of the tables

Each field of a table stands in the control structure and in the buffer of Table Services.
Both are registers that commands and loads overwrite, so that a run determines them, and
they part only where one of them is written without the other. -/
namespace TableHistories

open DwellData DwellUtils DwellTbl DwellPkts DwellApp DwellRuns DwellStreams StreamInit DwellTraces
open WorkingCopy InitialCopies TransitionRuns Replay

variable {cfg : Config}

/-- A field that MD keeps twice. -/
inductive Field (cfg : Config) where
  | enabled
  | signature
  | entry (i : Fin cfg.dwellTableSize)

namespace Field

abbrev Working : Field cfg → Type
  | enabled => ℕ
  | signature => CharField cfg.signatureFieldLength
  | entry _ => DwellControlEntry

abbrev Buffered : Field cfg → Type
  | enabled => ℕ
  | signature => CharField cfg.signatureFieldLength
  | entry _ => TableLoadEntry cfg

def working : (f : Field cfg) → DwellPacketControl cfg → f.Working
  | enabled, c => c.enabled
  | signature, c => c.signature
  | entry i, c => c.entry i

def buffered : (f : Field cfg) → DwellTableLoad cfg → f.Buffered
  | enabled, b => b.enabled
  | signature, b => b.signature
  | entry i, b => b.entry i

/-- What an operation leaves in the control structure, if it writes there: a refused
command as well as a granted one, and a load only if it is copied. -/
def workingWrite (r : Resolver) : (f : Field cfg) → StreamOp cfg → Option f.Working
  | enabled, .start _ => some dwellEnabled
  | enabled, .stop _ => some dwellDisabled
  | enabled, .load tbl true => some (tbl.enabled % 65536)
  | signature, .sign new _ => some ((CharField.zeros _).copyTerminated new)
  | signature, .load tbl true => some ((CharField.zeros _).copyTerminated tbl.signature)
  | entry i, .jam e new _ _ => if e = i then some new else none
  | entry i, .load tbl true => some (copiedEntry r tbl i)
  | _, _ => none

/-- What an operation leaves in the buffer: a granted command, and every load. -/
def bufferWrite : (f : Field cfg) → StreamOp cfg → Option f.Buffered
  | enabled, .start true => some dwellEnabled
  | enabled, .stop true => some dwellDisabled
  | enabled, .load tbl _ => some tbl.enabled
  | signature, .sign new true => some ((CharField.zeros _).copyTerminated new)
  | signature, .load tbl _ => some tbl.signature
  | entry i, .jam e _ load true => if e = i then some load else none
  | entry i, .load tbl _ => some (tbl.entry i)
  | _, _ => none

/-- The operation is meant for the field. -/
def Meant : Field cfg → StreamOp cfg → Prop
  | enabled, .start _ | enabled, .stop _ | signature, .sign _ _ => True
  | entry i, .jam e _ _ _ => e = i
  | _, .load _ _ => True
  | _, _ => False

/-- What is said of one field by `InStep`. -/
def Agrees (r : Resolver) : (f : Field cfg) → f.Working → f.Buffered → Prop
  | enabled, w, b => w = b
  | signature, w, b => w.cstr = b.cstr
  | entry i, w, b => w.length = b.length ∧ w.delay = b.delay ∧
      (b.length ≠ 0 → ∀ old a, resolveSymAddr r i b.dwellAddress old = (true, a) →
        w.resolvedAddress = a)

end Field

/-- A command that Table Services refused, or a load that MD did not copy or that its
validation function does not accept. -/
def OneSided (r : Resolver) : StreamOp cfg → Prop
  | .start granted | .stop granted | .jam _ _ _ granted | .sign _ granted => granted = false
  | .load tbl copied => copied = false ∨ ¬ Accepted r tbl
  | .idle | .pass => False

theorem inStep_iff {r : Resolver} {x : Stream cfg} :
    InStep r x ↔ ∀ f : Field cfg, f.Agrees r (f.working x.control) (f.buffered x.buffer) := by
  constructor
  · intro h f
    cases f with
    | enabled => exact h.enabled
    | signature => exact h.signature
    | entry i => exact ⟨h.length i i.isLt, h.delay i i.isLt, h.address i i.isLt⟩
  · intro h
    refine ⟨⟨h .enabled, h .signature, ?_, ?_⟩, ?_⟩
    · exact fun i hi => (h (.entry ⟨i, hi⟩)).1
    · exact fun i hi => (h (.entry ⟨i, hi⟩)).2.1
    · exact fun i hi => (h (.entry ⟨i, hi⟩)).2.2

section Step

variable {svc : Services cfg} {t : TblIndex cfg} {x y : Stream cfg} {acts : List (Action cfg)}
  {op : StreamOp cfg}

theorem adopt_working (r : Resolver) (tbl : DwellTableLoad cfg) (c : DwellPacketControl cfg)
    (f : Field cfg) :
    f.working (adopt r tbl c) =
      (f.workingWrite r (.load tbl true)).getD (f.working c) := by
  have h := adopt_contents r tbl c
  cases f with
  | enabled => exact h.enabled
  | signature => exact h.signature.trans (CharField.copyTerminated_congr _ _ _)
  | entry i =>
    have hi : (copiedUpTo r tbl c cfg.dwellTableSize).entry i = copiedEntry r tbl i :=
      if_pos i.isLt
    exact (congrFun h.entry i).trans hi

theorem working_of_contents {c d : DwellPacketControl cfg} (h : SameContents c d)
    (f : Field cfg) : f.working d = f.working c := by
  cases f with
  | enabled => exact h.enabled
  | signature => exact h.signature
  | entry i => exact congrFun h.entry i

theorem step_working (h : StreamStep svc t x acts y op) (f : Field cfg) :
    f.working y.control = (f.workingWrite svc.toResolver op).getD (f.working x.control) := by
  cases op with
  | idle =>
    rw [h.1]
    cases f <;> rfl
  | start granted =>
    rw [h.1]
    cases f <;> rfl
  | stop granted =>
    rw [h.1]
    cases f <;> rfl
  | jam e new load granted =>
    rw [h.1]
    cases f with
    | enabled => cases granted <;> rfl
    | signature => cases granted <;> rfl
    | entry i =>
      have hw : (jamEntry e new load granted x).control.entry i =
          Function.update x.control.entry e new i := by
        cases granted <;> rfl
      refine hw.trans ?_
      by_cases he : e = i
      · simp [Field.workingWrite, he]
      · simp [Field.working, Field.workingWrite, he, Ne.symm he]
  | sign signature granted =>
    rw [h.1]
    cases f with
    | signature => exact CharField.copyTerminated_congr _ _ _
    | enabled => rfl
    | entry i => rfl
  | load tbl copied =>
    rw [h.1]
    cases copied with
    | true => exact adopt_working svc.toResolver tbl x.control f
    | false => cases f <;> rfl
  | pass =>
    obtain ⟨fuel, p, hp, rfl, -⟩ := h
    rw [working_of_contents (dwellTable_contents hp) f]
    cases f <;> rfl

theorem step_buffered (h : StreamStep svc t x acts y op) (f : Field cfg) :
    f.buffered y.buffer = (f.bufferWrite op).getD (f.buffered x.buffer) := by
  cases op with
  | idle =>
    rw [h.1]
    cases f <;> rfl
  | start granted =>
    rw [h.1]
    cases granted <;> cases f <;> rfl
  | stop granted =>
    rw [h.1]
    cases granted <;> cases f <;> rfl
  | jam e new load granted =>
    rw [h.1]
    cases granted with
    | false => cases f <;> rfl
    | true =>
      cases f with
      | enabled => rfl
      | signature => rfl
      | entry i =>
        by_cases he : e = i
        · simp [Field.buffered, Field.bufferWrite, jamEntry, he]
        · simp [Field.buffered, Field.bufferWrite, jamEntry, he, Ne.symm he]
  | sign signature granted =>
    rw [h.1]
    cases granted with
    | false => cases f <;> rfl
    | true =>
      cases f with
      | signature => exact CharField.copyTerminated_congr _ _ _
      | enabled => rfl
      | entry i => rfl
  | load tbl copied =>
    rw [h.1]
    cases f <;> rfl
  | pass =>
    obtain ⟨fuel, p, hp, rfl, -⟩ := h
    cases f <;> rfl

end Step

theorem meant_of_write {r : Resolver} {f : Field cfg} {op : StreamOp cfg}
    (h : ¬ (f.workingWrite r op = none ∧ f.bufferWrite op = none)) : f.Meant op := by
  by_contra hm
  apply h
  cases f with
  | enabled =>
    cases op with
    | start | stop | load => exact absurd trivial hm
    | _ => exact ⟨rfl, rfl⟩
  | signature =>
    cases op with
    | sign | load => exact absurd trivial hm
    | _ => exact ⟨rfl, rfl⟩
  | entry i =>
    cases op with
    | load => exact absurd trivial hm
    | jam e new load granted =>
      have he : e ≠ i := hm
      cases granted <;> simp [Field.workingWrite, Field.bufferWrite, he]
    | _ => exact ⟨rfl, rfl⟩

theorem working_run {s s' : State cfg} {tr : List (State cfg × Label cfg)}
    (run : Run AnyStep s tr s') (t : TblIndex cfg) (f : Field cfg) :
    f.working (s'.dwellTables t) =
      lastWrite (fun l : Label cfg => f.workingWrite l.services.toResolver (opOf l t))
        (f.working (s.dwellTables t)) (tr.map Prod.snd) := by
  apply lastWrite_run (fun s : State cfg => f.working (s.dwellTables t)) _ run
  rintro s l s' ⟨fuel, h⟩
  exact step_working (exec_stream h t) f

theorem buffered_run {s s' : State cfg} {tr : List (State cfg × Label cfg)}
    (run : Run AnyStep s tr s') (t : TblIndex cfg) (f : Field cfg) :
    f.buffered (s'.tblBuffer t) =
      lastWrite (fun l : Label cfg => f.bufferWrite (opOf l t))
        (f.buffered (s.tblBuffer t)) (tr.map Prod.snd) := by
  apply lastWrite_run (fun s : State cfg => f.buffered (s.tblBuffer t)) _ run
  rintro s l s' ⟨fuel, h⟩
  exact step_buffered (exec_stream h t) f

theorem together_of_meant {m : MemoryMap} {l : Label cfg} {t : TblIndex cfg} {f : Field cfg}
    (env : Environment m l.services l.input) (hm : f.Meant (opOf l t))
    (ho : ¬ OneSided l.services.toResolver (opOf l t)) :
    ∃ w b, f.workingWrite l.services.toResolver (opOf l t) = some w ∧
      f.bufferWrite (opOf l t) = some b ∧ f.Agrees (m.inField cfg) w b := by
  have hsound := opOf_sound l t
  cases hop : opOf l t with
  | idle =>
    rw [hop] at hm
    cases f <;> exact hm.elim
  | pass =>
    rw [hop] at hm
    cases f <;> exact hm.elim
  | start granted =>
    rw [hop] at hm ho
    obtain rfl : granted = true := by simpa [OneSided] using ho
    cases f with
    | enabled => exact ⟨_, _, rfl, rfl, rfl⟩
    | _ => exact hm.elim
  | stop granted =>
    rw [hop] at hm ho
    obtain rfl : granted = true := by simpa [OneSided] using ho
    cases f with
    | enabled => exact ⟨_, _, rfl, rfl, rfl⟩
    | _ => exact hm.elim
  | sign new granted =>
    rw [hop] at hm ho
    obtain rfl : granted = true := by simpa [OneSided] using ho
    cases f with
    | signature => exact ⟨_, _, rfl, rfl, rfl⟩
    | _ => exact hm.elim
  | jam e new load granted =>
    rw [hop] at hm ho
    obtain rfl : granted = true := by simpa [OneSided] using ho
    cases f with
    | entry i =>
      have he : e = i := hm
      obtain ⟨hl, hd⟩ := opOf_jam_fields hop
      refine ⟨new, load, if_pos he, if_pos he, hl, hd, fun h0 old a ha => ?_⟩
      obtain ⟨-, hnew, -⟩ := opOf_jam_agrees env hop h0
      exact Option.some.inj (hnew.symm.trans ((inField_found m i _ old a).mp ha).2)
    | _ => exact hm.elim
  | load tbl copied =>
    rw [hop] at ho
    obtain ⟨hc, hacc⟩ : copied = true ∧ Accepted l.services.toResolver tbl := by
      simpa [OneSided] using ho
    subst hc
    have agree := inStep_iff.mp
      (adopt_inStep (inField_foundBy env.fixed) hacc (zeroControl cfg) (initMsg cfg)) f
    rw [adopt_working] at agree
    cases f <;> exact ⟨_, _, rfl, rfl, agree⟩

theorem recovered_inStep {r r' : Resolver} (hf : FoundBy cfg r r') {calls : InitCalls cfg}
    {s : State cfg} (h : Started r' calls s) {t : TblIndex cfg} (hr : Recovers r' calls t) :
    InStep r (stream s t) := by
  obtain ⟨-, buffer, hs⟩ := started_stream h t
  rw [hs, initStream, if_pos hr]
  exact adopt_inStep hf hr.2.2 _ _

end TableHistories
