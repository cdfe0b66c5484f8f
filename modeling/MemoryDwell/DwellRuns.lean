import MemoryDwell.DwellDispatch
import MemoryDwell.TransitionRuns

/-! # Runs of the application (the main loop of md_app.c)

The main loop manages every table and then processes a message, forever. The steps
below may come in any order, which covers the order of the loop. -/
namespace DwellRuns

open DwellData DwellUtils DwellTbl DwellPkts DwellApp DwellDispatch TransitionRuns

variable {cfg : Config}

inductive Input (cfg : Config) where
  | manage (t : TblIndex cfg) (calls : ManageCalls cfg ℕ)
  | message (bufPtr : Option (Message cfg))

/-- A step: the answers of the outside, the input, and what was done. -/
structure Label (cfg : Config) where
  services : Services cfg
  input : Input cfg
  actions : List (Action cfg)

def exec (fuel : ℕ) (s : State cfg) (k : Services cfg × Input cfg) :
    Option (Label cfg × State cfg) :=
  match k.2 with
  | .manage t calls =>
    (manageDwellTable k.1.toResolver calls fuel t 0 s).map fun m =>
      (⟨k.1, k.2, m.actions⟩, m.state)
  | .message bufPtr =>
    (processCommandPacket k.1 fuel bufPtr s).map fun (s, actions) => (⟨k.1, k.2, actions⟩, s)

/-- A step that does not end, or that leaves the C arrays, has no next state. -/
def Step (s : State cfg) (l : Label cfg) (s' : State cfg) : Prop :=
  (∃ fuel, exec fuel s (l.services, l.input) = some (l, s')) ∧ ∀ a ∈ l.actions, ActionDefined a

/-- A step of the application, whether or not it stays inside the data of the packets. -/
def AnyStep (s : State cfg) (l : Label cfg) (s' : State cfg) : Prop :=
  ∃ fuel, exec fuel s (l.services, l.input) = some (l, s')

theorem Step.any {s s' : State cfg} {l : Label cfg} (h : Step s l s') : AnyStep s l s' := h.1

theorem run_any {s s' : State cfg} {tr : List (State cfg × Label cfg)} (run : Run Step s tr s') :
    Run AnyStep s tr s' := run.imp fun _ _ _ st => st.any

theorem anyStep_command {s s' : State cfg} {l : Label cfg} {msg : Message cfg}
    (st : AnyStep s l s') (hi : l.input = .message (some msg)) (hc : msg.msgId = .cmd) :
    s' = execRequest l.services msg s := by
  obtain ⟨fuel, he⟩ := st
  rw [exec, hi] at he
  simp only [processCommandPacket, hc, Option.map_some, Option.some.injEq, Prod.mk.injEq] at he
  exact he.2.symm

theorem step_command {s s' : State cfg} {l : Label cfg} {msg : Message cfg} (st : Step s l s')
    (hi : l.input = .message (some msg)) (hc : msg.msgId = .cmd) :
    s' = execRequest l.services msg s := anyStep_command st.any hi hc

/-- The state in which table initialization starts: counters, control structures and
packets have been prepared. -/
def prepared (s : State cfg) : State cfg :=
  (initSoftwareBusServices ⟨.success, .success, .success, .success⟩ (initCounters s)).2

/-- The states after a successful MD_InitTableServices. -/
def Started (r : Resolver) (calls : InitCalls cfg) (s : State cfg) : Prop :=
  ∃ raw fuel, initTableServices r calls fuel (prepared raw) = some (.success, s)

end DwellRuns
