import CortexOnnx.ChatTask
import CortexOnnx.Lib.Run

/-!
# The engine at work

The engine together with the one thread of its task queue.  A client's handler call is one step; the
worker's task is several, and a `Grain` says between which of them a handler call may fall.
-/

namespace CortexOnnx

/-- Where the worker is in its task. -/
inductive Worker where
  | idle
  | guard (task : Task) (sequence : List Int)
  | postLoop (task : Task)
  | throughput (task : Task)
  | reload (task : Task)
  | finish (task : Task)

def Worker.task? : Worker → Option Task
  | idle => none
  | guard task _ | postLoop task | throughput task | reload task | finish task => some task

def Worker.isIdle : Worker → Bool
  | idle => true
  | _ => false

theorem Worker.isIdle_iff {worker : Worker} : worker.isIdle = true ↔ worker = .idle := by
  cases worker <;> simp [isIdle]

/-- Past the test after the loop. -/
def Worker.pastTest : Worker → Bool
  | throughput _ | reload _ | finish _ => true
  | idle | guard _ _ | postLoop _ => false

theorem Worker.task_of_pastTest {worker : Worker} (h : worker.pastTest = true) :
    ∃ task, worker.task? = some task := by
  cases worker with
  | throughput task | reload task | finish task => exact ⟨task, rfl⟩
  | idle | guard task sequence | postLoop task => cases h

/-- The granularity of interleaving: handler calls fall between whole tasks, between the start, the
loop turns and the post-loop part of a task, or between any two of its steps. -/
inductive Grain where
  | task
  | loop
  | fine
  deriving Repr, DecidableEq

def Grain.allows : Grain → Worker → Bool
  | .task, .idle => true
  | .task, _ => false
  | .loop, .idle | .loop, .guard _ _ | .loop, .postLoop _ => true
  | .loop, _ => false
  | .fine, _ => true

/-- `next` numbers the handler calls; after a fault nothing runs. -/
structure System (σ : Type) extends World σ where
  worker : Worker
  next : Nat
  fault : Option Fault

inductive Act where
  | loadModel (env : Env) (jsonBody : Json)
  | unloadModel (jsonBody : Json)
  | handleChatCompletion (jsonBody : Json)
  | handleEmbedding (jsonBody : Json)
  | getModelStatus (jsonBody : Json)
  | getModels (jsonBody : Json)
  | start (env : Env)
  | iterate (env : Env)
  | postLoop
  | throughput (env : Env)
  | reload (env : Env)
  | finish (env : Env)

namespace System

variable {σ : Type} (vendor : Vendor σ)

/-- One handler call.  An exception goes to the caller. -/
def handle (s : System σ) (body : EngineM σ Unit) : System σ :=
  match body s.toWorld with
  | (.value _, w) => { s with toWorld := w, next := s.next + 1 }
  -- what the body wrote before the throw stays written
  | (.exception _, w) =>
      { s with toWorld := { w with log := w.log ++ [.threw s.next] }, next := s.next + 1 }
  | (.undefined fault, w) => { s with toWorld := w, fault := some fault }

/-- One step of the task, inside its `try` block. -/
def work (s : System σ) (task : Task) (body : EngineM σ Worker) : System σ :=
  match Prog.tryCatch body (do inferenceFailed task; return .idle) s.toWorld with
  | (.value worker, w) => { s with toWorld := w, worker }
  -- a throw out of the `catch` block would end the process
  | (.exception _, w) => { s with toWorld := w, fault := some .uncaught }
  | (.undefined fault, w) => { s with toWorld := w, fault := some fault }

/-- The body of a handler call, given the number of its callback. -/
def handler (id : Nat) : Act → Option (EngineM σ Unit)
  | .loadModel env jsonBody => some (loadModel vendor id env jsonBody)
  | .unloadModel jsonBody => some (unloadModel id jsonBody)
  | .handleChatCompletion jsonBody => some (handleChatCompletion id jsonBody)
  | .handleEmbedding jsonBody => some (handleEmbedding id jsonBody)
  | .getModelStatus jsonBody => some (getModelStatus id jsonBody)
  | .getModels jsonBody => some (getModels id jsonBody)
  | _ => none

/-- The start of a task: a stream stops at its loop test, another task runs to its end. -/
def startTask (env : Env) (task : Task) : EngineM σ Worker :=
  if task.req.stream then do
    return .guard task (← streamStart vendor env task)
  else do
    generateAll vendor env task
    return .idle

/-- The worker's next step. -/
def workerStep (s : System σ) (act : Act) : Option (System σ) :=
  match act, s.worker with
  | .start env, .idle =>
      match s.engine.q with
      | some { name, tasks := task :: tasks } =>
          -- the worker takes the oldest task, whether or not a model is loaded
          some (work { s with engine := { s.engine with q := some { name, tasks } } } task
            (startTask vendor env task))
      | _ => none
  | .iterate env, .guard task sequence =>
      some (work s task do
        match ← streamIterate vendor env task sequence with
        | some sequence => return .guard task sequence
        | none => return .postLoop task)
  | .postLoop, .postLoop task =>
      some (work s task do
        if ← streamPostLoop task then return .throughput task else return .idle)
  | .throughput env, .throughput task =>
      some (work s task do
        if ← streamThroughput env then return .reload task else return .finish task)
  | .reload env, .reload task =>
      some (work s task do
        streamReload vendor env task
        return .finish task)
  | .finish env, .finish task =>
      some (work s task do
        streamFinish vendor env task
        return .idle)
  | _, _ => none

def step (grain : Grain) (s : System σ) (act : Act) : Option (System σ) :=
  if s.fault.isSome then none
  else
    match handler vendor s.next act with
    | some body => if grain.allows s.worker then some (handle s body) else none
    | none => workerStep vendor s act

/-- A freshly constructed engine with nothing running.  `start_time_` and `max_history_chat_` are
not initialized. -/
def fresh (startTime : Nat) (maxHistoryChat : Int) : System σ where
  engine :=
    { ogaModel := none, tokenizer := none, tokenizerStream := none, modelLoaded := false,
      userPrompt := "", aiPrompt := "", systemPrompt := "", prePrompt := "", modelId := "",
      startTime, maxHistoryChat, q := none, path := "" }
  log := []
  worker := .idle
  next := 0
  fault := none

end System

end CortexOnnx
