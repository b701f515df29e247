import SlipStack.Proofs.Engine.Tracing

/-!
# Calls with their answers

An `Exchange` is a call together with the answer of the world. A world can keep a record of
exchanges (`World.recorded`), which makes no difference to what is done in it, and it can be made
to answer calls one after the other (`World.converse`), whoever makes them.
-/

namespace SlipStack.Engine

variable {ω ε : Type}

namespace Call

def kind : Call → CapabilityKind
  | .act _ => .action
  | .read _ => .sense

def capability : Call → Capability
  | .act capability | .read capability => capability

/-- A call is its kind and its capability, so that a log of these two loses nothing. -/
theorem eq_of_kind_eq {call other : Call} (hkind : call.kind = other.kind)
    (hcapability : call.capability = other.capability) : call = other := by
  cases call <;> cases other <;> simp_all [kind, capability]

end Call

/-- A call of an action or a read of a sense, with its answer. -/
inductive Exchange (ε : Type) where
  | act (capability : Capability) (answer : Except ε Bool)
  | read (capability : Capability) (answer : Except ε Value)

namespace Exchange

def call : Exchange ε → Call
  | .act capability _ => .act capability
  | .read capability _ => .read capability

/-- Whether an action was called. -/
def isAction : Exchange ε → Bool
  | .act _ _ => true
  | .read _ _ => false

/-- Whether a sense was read, without failure. -/
def isReading : Exchange ε → Bool
  | .read _ (.ok _) => true
  | _ => false

/-- The failure that the capability answered with. -/
def error? : Exchange ε → Option ε
  | .act _ (.error e) | .read _ (.error e) => some e
  | _ => none

theorem not_isAction_of_isReading {exchange : Exchange ε} (h : exchange.isReading) :
    exchange.isAction = false := by
  cases exchange with
  | act => cases h
  | read => rfl

theorem error?_of_isReading {exchange : Exchange ε} (h : exchange.isReading) :
    exchange.error? = none := by
  match exchange with
  | .read _ (.ok _) => rfl

end Exchange

/-! ## The record -/

/-- The same world with a record of all exchanges, the latest first. -/
def World.recorded (world : World ω ε) : World (ω × List (Exchange ε)) ε where
  act capability := fun (w, record) =>
    let (answer, w) := world.act capability w
    (answer, w, .act capability answer :: record)
  read capability := fun (w, record) =>
    let (answer, w) := world.read capability w
    (answer, w, .read capability answer :: record)

variable {world : World ω ε} {w w₁ w' : ω} {record record₁ record' : List (Exchange ε)}

/-- The world on record behaves as the world itself for those who do not look at the record. -/
theorem World.recorded_shows (world : World ω ε) : World.Shows Prod.fst world.recorded world :=
  ⟨fun _ _ => rfl, fun _ _ => rfl⟩

/-- A step in the world on record is the step in the world: same answers, same agent, same world,
and a record beside it. -/
theorem Agent.step_recorded (agent : Agent) (world : World ω ε) (w : ω)
    (record : List (Exchange ε)) :
    agent.step world w =
      Prod.map id (Prod.map id Prod.fst) (agent.step world.recorded (w, record)) :=
  agent.step_shown world.recorded_shows (w, record)

theorem World.act_recorded {capability : Capability} {answer : Except ε Bool}
    (h : world.recorded.act capability (w, record) = (answer, w', record')) :
    record' = .act capability answer :: record := by
  simp only [recorded, Prod.mk.injEq] at h
  obtain ⟨rfl, -, rfl⟩ := h
  rfl

theorem World.read_recorded {capability : Capability} {answer : Except ε Value}
    (h : world.recorded.read capability (w, record) = (answer, w', record')) :
    record' = .read capability answer :: record := by
  simp only [recorded, Prod.mk.injEq] at h
  obtain ⟨rfl, -, rfl⟩ := h
  rfl

/-- Reads that succeed are recorded as such. -/
theorem Reads.of_recorded {senses : List Capability}
    (h : Reads world.recorded (w, record) senses (w', record')) :
    ∃ readings, record' = readings ++ record ∧ ∀ exchange ∈ readings, exchange.isReading := by
  generalize hlast : (w', record') = last at h
  induction h generalizing w' record' with
  | start =>
    cases hlast
    exact ⟨[], rfl, List.forall_mem_nil _⟩
  | @read senses sense reading before _ _ hread ih =>
    obtain ⟨w₀, record₀⟩ := before
    obtain ⟨readings, rfl, hreadings⟩ := ih rfl
    subst hlast
    rw [World.read_recorded hread]
    exact ⟨.read sense (.ok reading) :: readings, rfl, List.forall_mem_cons.2 ⟨rfl, hreadings⟩⟩

/-- So is the call that fails after them. -/
theorem Fails.of_recorded {call : Call} {e : ε}
    (h : Fails world.recorded (w, record) call e (w', record')) :
    ∃ exchange readings, record' = exchange :: readings ++ record ∧ exchange.error? = some e ∧
      ∀ exchange ∈ readings, exchange.isReading := by
  obtain ⟨senses, ⟨w₁, record₁⟩, hreads, hcall⟩ := h
  obtain ⟨readings, rfl, hreadings⟩ := hreads.of_recorded
  cases call with
  | act capability =>
    rcases hact : world.recorded.act capability (w₁, readings ++ record) with ⟨answer, w₂, record₂⟩
    obtain rfl := World.act_recorded hact
    rw [Call.perform, hact] at hcall
    cases answer <;> cases hcall
    exact ⟨_, readings, rfl, rfl, hreadings⟩
  | read capability =>
    rcases hread : world.recorded.read capability (w₁, readings ++ record) with
      ⟨answer, w₂, record₂⟩
    obtain rfl := World.read_recorded hread
    rw [Call.perform, hread] at hcall
    cases answer <;> cases hcall
    exact ⟨_, readings, rfl, rfl, hreadings⟩

/-! ## Conversations -/

namespace World

/-- The exchange that a call makes. -/
def answer (world : World ω ε) (call : Call) (w : ω) : Exchange ε × ω :=
  match call with
  | .act capability =>
    let (answer, w) := world.act capability w
    (.act capability answer, w)
  | .read capability =>
    let (answer, w) := world.read capability w
    (.read capability answer, w)

/-- The exchanges that calls make one after the other, and the world that they leave. -/
def converse (world : World ω ε) : List Call → ω → List (Exchange ε) × ω
  | [], w => ([], w)
  | call :: calls, w =>
    let (exchange, w) := world.answer call w
    let (exchanges, w) := converse world calls w
    (exchange :: exchanges, w)

/-- Each call in the world on record puts its exchange, the call with the answer it got, in front
of the record. -/
theorem answer_recorded (world : World ω ε) (call : Call) (w : ω) (record : List (Exchange ε)) :
    world.recorded.answer call (w, record) =
      ((world.answer call w).1, (world.answer call w).2, (world.answer call w).1 :: record) := by
  cases call <;> rfl

@[simp]
theorem call_answer (world : World ω ε) (call : Call) (w : ω) :
    (world.answer call w).1.call = call := by
  cases call <;> rfl

@[simp]
theorem map_call_converse (world : World ω ε) (calls : List Call) (w : ω) :
    (world.converse calls w).1.map Exchange.call = calls := by
  induction calls generalizing w with
  | nil => rfl
  | cons call calls ih => simp [converse, ih]

/-- Calls made one after the other are those made first, and the rest in the world that these
leave. -/
theorem converse_append (world : World ω ε) (before after : List Call) (w : ω) :
    world.converse (before ++ after) w =
      ((world.converse before w).1 ++ (world.converse after (world.converse before w).2).1,
        (world.converse after (world.converse before w).2).2) := by
  induction before generalizing w with
  | nil => rfl
  | cons call before ih => simp [converse, ih]

/-- What a call is answered depends on the world that the calls before it leave. -/
theorem getElem?_converse (world : World ω ε) (before after : List Call) (call : Call) (w : ω) :
    (world.converse (before ++ call :: after) w).1[before.length]? =
      some (world.answer call (world.converse before w).2).1 := by
  have hlength : (world.converse before w).1.length = before.length := by
    rw [← List.length_map (f := Exchange.call), map_call_converse]
  rw [converse_append, ← hlength, List.getElem?_append_right (Nat.le_refl _), Nat.sub_self]
  rfl

end World

end SlipStack.Engine
