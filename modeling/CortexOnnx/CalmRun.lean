import CortexOnnx.Lib.Until
import CortexOnnx.Isolation

/-!
# Runs in which nothing goes wrong

No call throws, no model is loaded or unloaded and no stream is slow, and the tokens come from a
deterministic generator, one at a time in the streaming branch and all at once in the other.
-/

namespace CortexOnnx

variable {σ : Type} {vendor : Vendor σ}

/-! ## Generators -/

/-- The search options that both branches set. -/
structure SearchOptions where
  maxLength : Int
  topP : Number
  temperature : Number
  deriving Repr, DecidableEq

def ChatCompletionRequest.searchOptions (req : ChatCompletionRequest) : SearchOptions where
  maxLength := req.maxTokens
  topP := req.topP
  temperature := req.temperature

/-- A deterministic generator: what `IsDone` answers for a sequence, and the token that
`ComputeLogits` and `GenerateNextToken` append to it. -/
structure Generator where
  isDone : List Int → Bool
  nextToken : List Int → Int

namespace Generator

def grow (generator : Generator) (sequence : List Int) : List Int :=
  sequence ++ [generator.nextToken sequence]

/-- `Generate` iterates the step from the prompt until the generator is done. -/
def Generates (generator : Generator) (prompt output : List Int) : Prop :=
  Until generator.isDone generator.grow prompt output

theorem Generates.exists_append {generator : Generator} {prompt output : List Int}
    (h : generator.Generates prompt output) : ∃ generated, output = prompt ++ generated :=
  Turns.exists_append h.1

/-- What `max_length` promises: a sequence of that many tokens is done. -/
def Bounded (generator : Generator) (maxLength : Int) : Prop :=
  ∀ sequence : List Int, maxLength ≤ sequence.length → generator.isDone sequence = true

/-- The sequence of a request is counted by an `int`, as its `max_length` is. -/
theorem Generates.counted {generator : Generator} {jsonBody : Json} {req : ChatCompletionRequest}
    {prompt output : List Int} (h : generator.Generates prompt output)
    (reads : ChatCompletionRequest.fromJson jsonBody = .ok req)
    (bounded : generator.Bounded req.searchOptions.maxLength) (fits : prompt.length < 2 ^ 31) :
    output.length < 2 ^ 31 := by
  have hmax : req.searchOptions.maxLength ≤ Json.maxInt :=
    (ChatCompletionRequest.maxTokens_inRange reads).2
  unfold Json.maxInt at hmax
  rcases Turns.length_le h.1 bounded with hprompt | hbound
  · omega
  · omega

end Generator

/-- The generator for a model and the options of a request. -/
abbrev Generators := String → SearchOptions → Generator

def Generators.for (generators : Generators) (model : OgaModel) (task : Task) : Generator :=
  generators model.path task.req.searchOptions

/-! ## Calm steps -/

def Env.Calm (env : Env) : Prop := ∀ c, env.fails c = false

theorem Env.Calm.throwsIn {env : Env} (h : env.Calm) (calls : List Call) :
    env.throwsIn calls = false := by
  apply List.any_eq_false.mpr
  intro c _
  rw [h c]
  exact Bool.false_ne_true

namespace System

/-- A step without a throw, a load, an unload or a restart, in which the generator answers.  The
length of an output is an `int`, as `max_length` is. -/
def Obeys (vendor : Vendor σ) (generators : Generators) (s : System σ) : Act → Prop
  | .loadModel _ _ | .unloadModel _ | .reload _ => False
  | .start env => env.Calm ∧ ∀ task model, s.engine.nextTask? = some task →
      s.engine.ogaModel = some model → task.req.stream = false →
        (generators.for model task).Generates (vendor.encode model.path task.formattedOutput)
          env.output ∧ env.output.length < 2 ^ 31
  | .iterate env => env.Calm ∧ ∀ task sequence model, s.worker = .guard task sequence →
      s.engine.ogaModel = some model →
        env.isDone = (generators.for model task).isDone sequence ∧
          (env.isDone = false → env.token = (generators.for model task).nextToken sequence)
  | .throughput env => env.slow = false
  | .handleChatCompletion _ | .handleEmbedding _ | .getModelStatus _ | .getModels _ | .postLoop
  | .finish _ => True

/-- What the events of a task that is answered in one piece are. -/
def wholeEvents (vendor : Vendor σ) (env : Env) (id : Nat) (model : OgaModel)
    (generated : List Int) : List Event :=
  [.used id model.epoch, .used id model.epoch, .used id model.epoch, .generated id,
    .used id model.epoch, wholeReply vendor env id model generated]

/-- The start of a task that is answered in one piece, with the reply. -/
theorem start_whole {grain : Grain} {s t : System σ} {env : Env} {name : String} {task : Task}
    {tasks : List Task} {model : OgaModel} {state : σ} {generated : List Int}
    (taken : step vendor grain s (.start env) = some t) (idle : s.worker = .idle)
    (queues : s.engine.q = some ⟨name, task :: tasks⟩) (whole : task.req.stream = false)
    (holds : s.engine.Holds model state) (calm : env.Calm)
    (output : env.output = vendor.encode model.path task.formattedOutput ++ generated)
    (counted : env.output.length < 2 ^ 31) :
    t = s.moves (s.engine.dequeue name tasks) (wholeEvents vendor env task.id model generated)
      .idle := by
  have holds' : (s.engine.dequeue name tasks).Holds model state := ⟨holds.1, holds.2, holds.3⟩
  have hspec : Prog.wp (startTask vendor env task) (fun r w' => r = .value .idle ∧ w' =
      { engine := s.engine.dequeue name tasks
        log := s.log ++ wholeEvents vendor env task.id model generated })
      { engine := s.engine.dequeue name tasks, log := s.log } := by
    rw [startTask, if_neg (by simp [whole]), Prog.wp_bind]
    apply (generateAll_output vendor env task holds' calm output (by omega)).mono
    rintro r w' ⟨rfl, rfl⟩
    exact ⟨rfl, rfl⟩
  have hwork : t = ({ s with engine := s.engine.dequeue name tasks } : System σ).work task
      (startTask vendor env task) := by
    rw [step] at taken
    split at taken
    · cases taken
    · simp only [handler, workerStep, idle, queues, Option.some.injEq] at taken
      rw [idle]
      exact taken.symm
  rcases work_cases (s := { s with engine := s.engine.dequeue name tasks }) task hspec with
    ⟨worker, w, ⟨hworker, rfl⟩, ht⟩ | ⟨what, w, ⟨hr, _⟩, _⟩ | ⟨fault, w, ⟨hr, _⟩, _⟩
  · cases hworker
    rw [hwork, ht]
    rfl
  · cases hr
  · cases hr

/-- The outcomes of a calm step. -/
inductive CalmStep (vendor : Vendor σ) (generators : Generators) (s : System σ) (model : OgaModel)
    (state : σ) : System σ → Prop
  | answered {events : List Event} (concerns : Concerns s.next events) :
      CalmStep vendor generators s model state (s.answer s.engine events)
  | admitted {task : Task} {queue : ConcurrentTaskQueue} (id : task.id = s.next)
      (queues : s.engine.q = some queue) :
      CalmStep vendor generators s model state
        (s.answer (s.engine.enqueue queue task) [.queued s.next])
  | started {name : String} {task : Task} {tasks : List Task} (idle : s.worker = .idle)
      (queues : s.engine.q = some ⟨name, task :: tasks⟩) (stream : task.req.stream = true) :
      CalmStep vendor generators s model state
        (s.moves (s.engine.dequeue name tasks) (List.replicate 3 (.used task.id model.epoch))
          (.guard task (vendor.encode model.path task.formattedOutput)))
  | generated {env : Env} {name : String} {task : Task} {tasks : List Task} {tokens : List Int}
      (idle : s.worker = .idle) (queues : s.engine.q = some ⟨name, task :: tasks⟩)
      (whole : task.req.stream = false)
      (generates : (generators.for model task).Generates
        (vendor.encode model.path task.formattedOutput)
        (vendor.encode model.path task.formattedOutput ++ tokens)) :
      CalmStep vendor generators s model state
        (s.moves (s.engine.dequeue name tasks) (wholeEvents vendor env task.id model tokens) .idle)
  | turned {env : Env} {task : Task} {sequence : List Int} (at_ : s.worker = .guard task sequence)
      (goes : (generators.for model task).isDone sequence = false)
      (token : env.token = (generators.for model task).nextToken sequence) :
      CalmStep vendor generators s model state
        (s.moves (s.engine.withHandles model (vendor.streamDecode model.path state env.token).1)
          (turnEvents vendor env task.id model state)
          (.guard task ((generators.for model task).grow sequence)))
  | left {task : Task} {sequence : List Int} (at_ : s.worker = .guard task sequence)
      (stops : (generators.for model task).isDone sequence = true) :
      CalmStep vendor generators s model state (s.moves s.engine [] (.postLoop task))
  | tested {task : Task} (at_ : s.worker = .postLoop task) :
      CalmStep vendor generators s model state (s.moves s.engine [] (.throughput task))
  | measured {task : Task} (at_ : s.worker = .throughput task) :
      CalmStep vendor generators s model state (s.moves s.engine [] (.finish task))
  | finished {env : Env} {task : Task} (at_ : s.worker = .finish task) :
      CalmStep vendor generators s model state
        (s.moves s.engine [stopReply vendor env task.id] .idle)

theorem calmStep_of_whole {grain : Grain} {generators : Generators} {s t : System σ} {env : Env}
    {name : String} {task : Task} {tasks : List Task} {model : OgaModel} {state : σ}
    (holds : s.engine.Holds model state) (taken : step vendor grain s (.start env) = some t)
    (obeys : s.Obeys vendor generators (.start env)) (idle : s.worker = .idle)
    (queues : s.engine.q = some ⟨name, task :: tasks⟩) (whole : task.req.stream = false) :
    CalmStep vendor generators s model state t := by
  have hnext : s.engine.nextTask? = some task := by
    rw [OnnxEngine.nextTask?, queues]
    rfl
  obtain ⟨hgenerates, hcounted⟩ := obeys.2 task model hnext holds.ogaModel whole
  obtain ⟨tokens, houtput⟩ := hgenerates.exists_append
  rw [start_whole taken idle queues whole holds obeys.1 houtput hcounted]
  rw [houtput] at hgenerates
  exact .generated idle queues whole hgenerates

theorem Obeys.generator {generators : Generators} {s : System σ} {env : Env} {task : Task}
    {sequence : List Int} {model : OgaModel} {state : σ}
    (obeys : s.Obeys vendor generators (.iterate env)) (at_ : s.worker = .guard task sequence)
    (holds : s.engine.Holds model state) :
    env.isDone = (generators.for model task).isDone sequence ∧
      (env.isDone = false → env.token = (generators.for model task).nextToken sequence) :=
  obeys.2 task sequence model at_ holds.ogaModel

/-- **Inversion** of a calm step. -/
theorem calmStep_of_step {grain : Grain} {generators : Generators} {s t : System σ} {act : Act}
    {model : OgaModel} {state : σ} (tracked : s.Tracked) (holds : s.engine.Holds model state)
    (taken : step vendor grain s act = some t) (obeys : s.Obeys vendor generators act) :
    CalmStep vendor generators s model state t := by
  have hset := tracked.flag_of_holds holds
  have ht := tracked.transition taken
  cases ht with
  | loadThrew | loadFailed | loaded | unloadRefused | unloaded | reloaded | reloadFailed =>
    exact obeys.elim
  | chatRefused unset => exact absurd (hset.symm.trans unset) (by decide)
  | chatThrew | embedding | modelStatus | models =>
    exact .answered (by simp [Concerns, Event.subject?, modelStatusReply, modelsReply])
  | chatQueued set forms queues => exact .admitted (formTask_id forms) queues
  | chatFaulted set null =>
    have hqueue := tracked.queue set
    rw [null] at hqueue
    cases hqueue
  | streamStarted idle queues stream holds' =>
    obtain ⟨rfl, rfl⟩ := holds.unique holds'
    exact .started idle queues stream
  | startFailed idle queues throws =>
    rw [obeys.1.throwsIn] at throws
    cases throws
  | startFaulted idle queues empty => exact absurd empty holds.not_empty
  -- the transition leaves the outcome open, and the generator settles it
  | generated idle queues whole | generateFaulted idle queues _ whole =>
    exact calmStep_of_whole holds taken obeys idle queues whole
  | @turned env task sequence model' state' at_ holds' turns =>
    obtain ⟨rfl, rfl⟩ := holds.unique holds'
    obtain ⟨hdone, htoken⟩ := obeys.generator at_ holds
    have hgoes : env.isDone = false := by simpa [OnnxEngine.turns, hset] using turns
    have hgrown : sequence ++ [env.token] = (generators.for model task).grow sequence := by
      rw [htoken hgoes]
      rfl
    rw [hgrown]
    exact .turned at_ (hdone.symm.trans hgoes) (htoken hgoes)
  | @loopLeft env task sequence at_ tests stops =>
    have hdone : env.isDone = true := by simpa [OnnxEngine.turns, hset] using stops
    exact .left at_ ((obeys.generator at_ holds).1.symm.trans hdone)
  | turnFailed at_ throws =>
    simp [OnnxEngine.turnThrows, obeys.1 _, obeys.1.throwsIn] at throws
  | turnFaulted at_ empty => exact absurd empty holds.not_empty
  | leftUnloaded at_ unset => exact absurd (hset.symm.trans unset) (by decide)
  | leftLoaded at_ => exact .tested at_
  | tornDown at_ slow => exact absurd (slow.symm.trans obeys) (by decide)
  | fastEnough at_ => exact .measured at_
  | finished at_ => exact .finished at_

/-- The model stays, and only a turn changes the decoder's state. -/
theorem CalmStep.holds {generators : Generators} {s t : System σ} {model : OgaModel} {state : σ}
    (h : CalmStep vendor generators s model state t) (holds : s.engine.Holds model state) :
    ∃ state', t.engine.Holds model state' := by
  cases h with
  | turned => exact ⟨_, OnnxEngine.withHandles_holds _ _ _⟩
  | _ => exact ⟨state, holds.1, holds.2, holds.3⟩

theorem CalmStep.fault_eq {generators : Generators} {s t : System σ} {model : OgaModel} {state : σ}
    (h : CalmStep vendor generators s model state t) : t.fault = s.fault := by
  cases h <;> rfl

/-- An invariant of calm runs over a model that is held. -/
theorem run_calm {grain : Grain} {generators : Generators} {I : System σ → Prop} {s t : System σ}
    {es : List (System σ × Act)} {model : OgaModel} (hrun : Run (step vendor grain) s es t)
    (tracked : s.Tracked) (ledger : s.Ledger vendor) (running : s.fault = none)
    (held : ∃ state, s.engine.Holds model state) (init : I s)
    (preserved : ∀ {s t : System σ} {state : σ}, s.Ledger vendor → s.engine.Holds model state →
      CalmStep vendor generators s model state t → View vendor s t → I s → I t)
    (obeys : EveryStep (fun s act => s.Obeys vendor generators act) es) :
    (t.Tracked ∧ t.Ledger vendor ∧ t.fault = none ∧ ∃ state, t.engine.Holds model state) ∧ I t := by
  induction hrun with
  | nil => exact ⟨⟨tracked, ledger, running, held⟩, init⟩
  | snoc _ taken ih =>
    obtain ⟨hes, hact⟩ := everyStep_snoc.mp obeys
    obtain ⟨⟨htracked, hledger, hrunning, state, hholds⟩, hI⟩ := ih hes
    have ht := htracked.transition taken
    have hcalm := calmStep_of_step htracked hholds taken hact
    refine ⟨⟨ht.tracked htracked, ht.view.ledger hledger hrunning, ?_, hcalm.holds hholds⟩, ?_⟩
    · rw [hcalm.fault_eq, hrunning]
    · exact preserved hledger hholds hcalm ht.view hI

end System

end CortexOnnx
