import CortexOnnx.Specs

/-!
# What one step can do

`Transition` lists the outcomes of every step of the system, each with the state it leads to.  The
invariants of the later files are all derived from it.
-/

namespace CortexOnnx

variable {σ : Type}

def OnnxEngine.dequeue (engine : OnnxEngine σ) (name : String) (tasks : List Task) : OnnxEngine σ :=
  { engine with q := some { name, tasks } }

/-- The task that `start` takes. -/
def OnnxEngine.nextTask? (engine : OnnxEngine σ) : Option Task :=
  engine.q.bind fun queue => queue.tasks.head?

/-- What a piece of task `id` may log before it throws: uses of the handles it found. -/
def OnnxEngine.MayUse (engine : OnnxEngine σ) (id : Nat) (uses : List Event) : Prop :=
  uses = [] ∨ ∃ model state, engine.Holds model state ∧ Uses id model.epoch uses

def taskCalls (task : Task) : List Call := if task.req.stream then startCalls else generateCalls

def failedEvents (id : Nat) : List Event := [.inferenceError id, inferenceFailedReply id]

def modelStatusReply (id : Nat) : Event :=
  .callback id (.failure k409Conflict)
    (messageBody "Engine does not support get model status method yet")

def modelsReply (engine : OnnxEngine σ) (id : Nat) : Event :=
  .callback id .ok (.obj [("data", .arr (runningModels engine)), ("object", .str "list")])

namespace System

/-- A handler call that returns or throws. -/
def answer (s : System σ) (engine : OnnxEngine σ) (events : List Event) : System σ :=
  { s with engine, log := s.log ++ events, next := s.next + 1 }

/-- A step of the worker. -/
def moves (s : System σ) (engine : OnnxEngine σ) (events : List Event) (worker : Worker) :
    System σ :=
  { s with engine, log := s.log ++ events, worker }

/-- A step that runs into undefined behaviour. -/
def crashes (s : System σ) (engine : OnnxEngine σ) (events : List Event) (fault : Fault) :
    System σ :=
  { s with engine, log := s.log ++ events, fault := some fault }

section Fields

variable (s : System σ) (engine : OnnxEngine σ) (events : List Event)

@[simp] theorem answer_engine : (s.answer engine events).engine = engine := rfl
@[simp] theorem answer_log : (s.answer engine events).log = s.log ++ events := rfl
@[simp] theorem answer_worker : (s.answer engine events).worker = s.worker := rfl
@[simp] theorem answer_next : (s.answer engine events).next = s.next + 1 := rfl
@[simp] theorem answer_fault : (s.answer engine events).fault = s.fault := rfl

@[simp] theorem moves_engine (worker : Worker) :
    (s.moves engine events worker).engine = engine := rfl
@[simp] theorem moves_log (worker : Worker) :
    (s.moves engine events worker).log = s.log ++ events := rfl
@[simp] theorem moves_worker (worker : Worker) :
    (s.moves engine events worker).worker = worker := rfl
@[simp] theorem moves_next (worker : Worker) : (s.moves engine events worker).next = s.next := rfl
@[simp] theorem moves_fault (worker : Worker) :
    (s.moves engine events worker).fault = s.fault := rfl

@[simp] theorem crashes_engine (fault : Fault) :
    (s.crashes engine events fault).engine = engine := rfl
@[simp] theorem crashes_log (fault : Fault) :
    (s.crashes engine events fault).log = s.log ++ events := rfl
@[simp] theorem crashes_worker (fault : Fault) :
    (s.crashes engine events fault).worker = s.worker := rfl
@[simp] theorem crashes_next (fault : Fault) : (s.crashes engine events fault).next = s.next := rfl
@[simp] theorem crashes_fault (fault : Fault) :
    (s.crashes engine events fault).fault = some fault := rfl

end Fields

/-- The outcomes of a step, for an engine whose handles are aligned. -/
inductive Transition (vendor : Vendor σ) (s : System σ) : Act → System σ → Prop
  | loadThrew {env : Env} {jsonBody : Json} {what : String}
      (reads : readConfig jsonBody = .error what) :
      Transition vendor s (.loadModel env jsonBody)
        (s.answer (s.engine.withConfig (overwrite s.engine.config jsonBody)) [.threw s.next])
  | loadFailed {env : Env} {jsonBody : Json} {config : Config} {early : List Event}
      (reads : readConfig jsonBody = .ok config) (throws : loadThrows env jsonBody = true)
      (told : early = [] ∨ early = [loadedReply s.next]) :
      Transition vendor s (.loadModel env jsonBody)
        (s.answer (s.engine.withConfig config).dropHandles
          (early ++ [.loadFailed, loadFailedReply s.next]))
  | loaded {env : Env} {jsonBody : Json} {config : Config} {modelId : String}
      (reads : readConfig jsonBody = .ok config) (succeeds : loadThrows env jsonBody = false)
      (names : getModelId jsonBody = .ok modelId) :
      Transition vendor s (.loadModel env jsonBody)
        (s.answer (((s.engine.withConfig config).withHandles
            { path := config.path, epoch := some (epoch s.log + 1) }
            (vendor.streamInit config.path)).markLoaded modelId env.startTime)
          [loadedReply s.next, .modelLoaded jsonBody])
  | unloadRefused {jsonBody : Json} (unset : s.engine.modelLoaded = false) :
      Transition vendor s (.unloadModel jsonBody) (s.answer s.engine [refusal s.next])
  | unloaded {jsonBody : Json} (set : s.engine.modelLoaded = true) :
      Transition vendor s (.unloadModel jsonBody)
        (s.answer { s.engine.dropHandles with modelLoaded := false }
          [unloadedReply s.next, .modelUnloaded])
  | chatRefused {jsonBody : Json} (unset : s.engine.modelLoaded = false) :
      Transition vendor s (.handleChatCompletion jsonBody) (s.answer s.engine [refusal s.next])
  | chatThrew {jsonBody : Json} {what : String} (set : s.engine.modelLoaded = true)
      (forms : formTask s.engine.config s.next jsonBody = .error what) :
      Transition vendor s (.handleChatCompletion jsonBody) (s.answer s.engine [.threw s.next])
  | chatQueued {jsonBody : Json} {task : Task} {queue : ConcurrentTaskQueue}
      (set : s.engine.modelLoaded = true)
      (forms : formTask s.engine.config s.next jsonBody = .ok task)
      (queues : s.engine.q = some queue) :
      Transition vendor s (.handleChatCompletion jsonBody)
        (s.answer (s.engine.enqueue queue task) [.queued s.next])
  | chatFaulted {jsonBody : Json} (set : s.engine.modelLoaded = true) (null : s.engine.q = none) :
      Transition vendor s (.handleChatCompletion jsonBody) (s.crashes s.engine [] .nullQueue)
  | embedding {jsonBody : Json} :
      Transition vendor s (.handleEmbedding jsonBody) (s.answer s.engine [])
  | modelStatus {jsonBody : Json} :
      Transition vendor s (.getModelStatus jsonBody) (s.answer s.engine [modelStatusReply s.next])
  | models {jsonBody : Json} :
      Transition vendor s (.getModels jsonBody)
        (s.answer s.engine [modelsReply s.engine s.next])
  | streamStarted {env : Env} {name : String} {task : Task} {tasks : List Task} {model : OgaModel}
      {state : σ} (idle : s.worker = .idle) (queues : s.engine.q = some ⟨name, task :: tasks⟩)
      (stream : task.req.stream = true) (holds : s.engine.Holds model state)
      (succeeds : env.throwsIn startCalls = false) :
      Transition vendor s (.start env)
        (s.moves (s.engine.dequeue name tasks) (List.replicate 3 (.used task.id model.epoch))
          (.guard task (vendor.encode model.path task.formattedOutput)))
  | generated {env : Env} {name : String} {task : Task} {tasks : List Task} {model : OgaModel}
      {state : σ} {body : Json} (idle : s.worker = .idle)
      (queues : s.engine.q = some ⟨name, task :: tasks⟩)
      (whole : task.req.stream = false) (holds : s.engine.Holds model state)
      (succeeds : env.throwsIn generateCalls = false) :
      Transition vendor s (.start env)
        (s.moves (s.engine.dequeue name tasks)
          [.used task.id model.epoch, .used task.id model.epoch, .used task.id model.epoch,
            .generated task.id, .used task.id model.epoch, .callback task.id .ok body] .idle)
  | startFailed {env : Env} {name : String} {task : Task} {tasks : List Task} {uses : List Event}
      (idle : s.worker = .idle) (queues : s.engine.q = some ⟨name, task :: tasks⟩)
      (throws : env.throwsIn (taskCalls task) = true) (used : s.engine.MayUse task.id uses)
      (early : s.engine.Empty → env.fails .sequencesCreate = true) :
      Transition vendor s (.start env)
        (s.moves (s.engine.dequeue name tasks).dropHandles (uses ++ failedEvents task.id) .idle)
  | startFaulted {env : Env} {name : String} {task : Task} {tasks : List Task}
      (idle : s.worker = .idle) (queues : s.engine.q = some ⟨name, task :: tasks⟩)
      (empty : s.engine.Empty) (reached : env.fails .sequencesCreate = false) :
      Transition vendor s (.start env)
        (s.crashes (s.engine.dequeue name tasks) [] .nullTokenizer)
  | generateFaulted {env : Env} {name : String} {task : Task} {tasks : List Task}
      {model : OgaModel} {state : σ} {uses : List Event} (idle : s.worker = .idle)
      (queues : s.engine.q = some ⟨name, task :: tasks⟩) (holds : s.engine.Holds model state)
      (whole : task.req.stream = false) (succeeds : env.throwsIn generateCalls = false)
      (used : s.engine.MayUse task.id uses) :
      Transition vendor s (.start env)
        (s.crashes (s.engine.dequeue name tasks) uses .outOfBounds)
  | turned {env : Env} {task : Task} {sequence : List Int} {model : OgaModel} {state : σ}
      (at_ : s.worker = .guard task sequence) (holds : s.engine.Holds model state)
      (turns : s.engine.turns env = true) (succeeds : s.engine.turnThrows env = false) :
      Transition vendor s (.iterate env)
        (s.moves (s.engine.withHandles model (vendor.streamDecode model.path state env.token).1)
          [.used task.id model.epoch, .decoded task.id env.token (turnText vendor env model state),
            chunkReply vendor env task.id (turnText vendor env model state)]
          (.guard task (sequence ++ [env.token])))
  | loopLeft {env : Env} {task : Task} {sequence : List Int}
      (at_ : s.worker = .guard task sequence) (tests : env.fails .isDone = false)
      (stops : s.engine.turns env = false) :
      Transition vendor s (.iterate env) (s.moves s.engine [] (.postLoop task))
  | turnFailed {env : Env} {task : Task} {sequence : List Int} {uses : List Event}
      (at_ : s.worker = .guard task sequence) (throws : s.engine.turnThrows env = true)
      (used : s.engine.MayUse task.id uses)
      (early : s.engine.Empty → s.engine.throwsEarly env = true) :
      Transition vendor s (.iterate env)
        (s.moves s.engine.dropHandles (uses ++ failedEvents task.id) .idle)
  | turnFaulted {env : Env} {task : Task} {sequence : List Int}
      (at_ : s.worker = .guard task sequence) (empty : s.engine.Empty)
      (turns : s.engine.turns env = true) (reached : s.engine.throwsEarly env = false) :
      Transition vendor s (.iterate env) (s.crashes s.engine [] .nullTokenizerStream)
  | leftUnloaded {task : Task} (at_ : s.worker = .postLoop task)
      (unset : s.engine.modelLoaded = false) :
      Transition vendor s .postLoop (s.moves s.engine [streamUnloadedReply task.id] .idle)
  | leftLoaded {task : Task} (at_ : s.worker = .postLoop task)
      (set : s.engine.modelLoaded = true) :
      Transition vendor s .postLoop (s.moves s.engine [] (.throughput task))
  | tornDown {env : Env} {task : Task} (at_ : s.worker = .throughput task)
      (slow : env.slow = true) :
      Transition vendor s (.throughput env)
        (s.moves s.engine.tornDown [.restarting] (.reload task))
  | fastEnough {env : Env} {task : Task} (at_ : s.worker = .throughput task)
      (fast : env.slow = false) :
      Transition vendor s (.throughput env) (s.moves s.engine [] (.finish task))
  | reloaded {env : Env} {task : Task} (at_ : s.worker = .reload task)
      (succeeds : env.throwsIn createCalls = false) :
      Transition vendor s (.reload env)
        (s.moves ((s.engine.withHandles
            { path := s.engine.path, epoch := restartEpoch s.log s.engine.path }
            (vendor.streamInit s.engine.path)).markLoaded s.engine.modelId env.startTime)
          [.used task.id (restartEpoch s.log s.engine.path), .restarted] (.finish task))
  | reloadFailed {env : Env} {task : Task} (at_ : s.worker = .reload task)
      (throws : env.throwsIn createCalls = true) :
      Transition vendor s (.reload env)
        (s.moves s.engine.dropHandles (failedEvents task.id) .idle)
  | finished {env : Env} {task : Task} (at_ : s.worker = .finish task) :
      Transition vendor s (.finish env)
        (s.moves s.engine [stopReply vendor env task.id] .idle)

/-! ## Every step is one of them -/

theorem handle_cases {s : System σ} {body : EngineM σ Unit} {Q : Exit Fault Unit → World σ → Prop}
    (h : Prog.wp body Q s.toWorld) :
    (∃ w, Q (.value ()) w ∧ s.handle body = { s with toWorld := w, next := s.next + 1 }) ∨
    (∃ what w, Q (.exception what) w ∧ s.handle body =
      { s with toWorld := { w with log := w.log ++ [.threw s.next] }, next := s.next + 1 }) ∨
    (∃ fault w, Q (.undefined fault) w ∧
      s.handle body = { s with toWorld := w, fault := some fault }) := by
  -- both sides run the body once; what it gives decides all three cases
  unfold Prog.wp at h
  unfold handle
  generalize body s.toWorld = run at h ⊢
  rcases run with ⟨_ | what | fault, w⟩
  · exact Or.inl ⟨w, h, rfl⟩
  · exact Or.inr (Or.inl ⟨what, w, h, rfl⟩)
  · exact Or.inr (Or.inr ⟨fault, w, h, rfl⟩)

/-- The `catch` block never throws, so no exception leaves a task. -/
theorem work_cases {s : System σ} (task : Task) {body : EngineM σ Worker}
    {Q : Exit Fault Worker → World σ → Prop} (h : Prog.wp body Q s.toWorld) :
    (∃ worker w, Q (.value worker) w ∧ s.work task body = { s with toWorld := w, worker }) ∨
    (∃ what w, Q (.exception what) w ∧ s.work task body =
      { s with
        toWorld := { engine := w.engine.dropHandles, log := w.log ++ failedEvents task.id }
        worker := .idle }) ∨
    (∃ fault w, Q (.undefined fault) w ∧
      s.work task body = { s with toWorld := w, fault := some fault }) := by
  have hrun : Prog.wp (Prog.tryCatch body (do inferenceFailed task; return .idle)) (fun r w' =>
      (∃ worker, r = .value worker ∧ Q r w') ∨
      (∃ what w, r = .value .idle ∧ Q (.exception what) w ∧
        w' = { engine := w.engine.dropHandles, log := w.log ++ failedEvents task.id }) ∨
      (∃ fault, r = .undefined fault ∧ Q r w')) s.toWorld := by
    rw [Prog.wp_tryCatch]
    apply h.mono
    rintro (worker | what | fault) w' hQ
    · exact Or.inl ⟨worker, rfl, hQ⟩
    -- the exception is caught, and the handler returns a value
    · dsimp only
      rw [Prog.wp_bind, inferenceFailed_spec]
      exact Or.inr (Or.inl ⟨what, w', rfl, hQ, rfl⟩)
    · exact Or.inr (Or.inr ⟨fault, rfl, hQ⟩)
  unfold Prog.wp at hrun
  unfold work
  generalize Prog.tryCatch body (do inferenceFailed task; return .idle) s.toWorld = run at hrun ⊢
  rcases run with ⟨r, w'⟩
  rcases hrun with ⟨worker, rfl, hQ⟩ | ⟨what, w, rfl, hQ, rfl⟩ | ⟨fault, rfl, hQ⟩
  · exact Or.inl ⟨worker, w', hQ, rfl⟩
  · exact Or.inr (Or.inl ⟨what, w, hQ, rfl⟩)
  · exact Or.inr (Or.inr ⟨fault, w', hQ, rfl⟩)

section Handlers

variable (vendor : Vendor σ) (s : System σ) (jsonBody : Json)

theorem loadModel_transition (env : Env) :
    Transition vendor s (.loadModel env jsonBody)
      (s.handle (loadModel vendor s.next env jsonBody)) := by
  rcases handle_cases (loadModel_spec vendor s.next env jsonBody s.toWorld) with
    ⟨w, ⟨config, hreads, ⟨hthrows, modelId, hnames, rfl⟩ | ⟨hthrows, early, htold, rfl⟩⟩, ht⟩ |
    ⟨what, w, ⟨hreads, rfl⟩, ht⟩ | ⟨fault, w, hfalse, ht⟩
  · rw [ht]
    exact .loaded hreads hthrows hnames
  · rw [ht]
    exact .loadFailed hreads hthrows htold
  · rw [ht]
    exact .loadThrew hreads
  · exact hfalse.elim

theorem unloadModel_transition :
    Transition vendor s (.unloadModel jsonBody) (s.handle (unloadModel s.next jsonBody)) := by
  rcases handle_cases (unloadModel_spec s.next jsonBody s.toWorld) with
    ⟨w, ⟨hloaded, _, rfl⟩ | ⟨hloaded, _, rfl⟩, ht⟩ |
    ⟨what, w, ⟨_, hr, _⟩ | ⟨_, hr, _⟩, _⟩ | ⟨fault, w, ⟨_, hr, _⟩ | ⟨_, hr, _⟩, _⟩
  · rw [ht]
    exact .unloadRefused hloaded
  · rw [ht]
    exact .unloaded hloaded
  all_goals cases hr

/-- The callback of a queued request is its number. -/
theorem formTask_id {config : Config} {id : Nat} {jsonBody : Json} {task : Task}
    (h : formTask config id jsonBody = .ok task) : task.id = id := by
  unfold formTask at h
  cases hreq : ChatCompletionRequest.fromJson jsonBody with
  | error what => simp [hreq] at h
  | ok req =>
    cases hget : jsonBody.get "stream" (.bool false) with
    | error what => simp [hreq, hget] at h
    | ok value =>
      cases hbool : value.asBool with
      | error what => simp [hreq, hget, hbool] at h
      | ok isStream =>
        cases hformat : formatPrompt config req.messages with
        | error what => simp [hreq, hget, hbool, hformat] at h
        | ok formattedOutput =>
          simp only [hreq, hget, hbool, hformat, ok_bind, pure_ok, Except.ok.injEq] at h
          rw [← h]

theorem handleChatCompletion_transition :
    Transition vendor s (.handleChatCompletion jsonBody)
      (s.handle (handleChatCompletion s.next jsonBody)) := by
  rcases handle_cases (handleChatCompletion_spec s.next jsonBody s.toWorld) with
    ⟨w, hQ, ht⟩ | ⟨what, w, hQ, ht⟩ | ⟨fault, w, hQ, ht⟩
  · rcases hQ with ⟨hloaded, _, rfl⟩ | ⟨_, _, _, hr, _⟩ |
      ⟨hloaded, task, hforms, ⟨queue, hq, _, rfl⟩ | ⟨_, hr, _⟩⟩
    · rw [ht]
      exact .chatRefused hloaded
    · cases hr
    · rw [ht]
      exact .chatQueued hloaded hforms hq
    · cases hr
  · rcases hQ with ⟨_, hr, _⟩ | ⟨hloaded, what', hforms, _, rfl⟩ |
      ⟨_, _, _, ⟨_, _, hr, _⟩ | ⟨_, hr, _⟩⟩
    · cases hr
    · rw [ht]
      exact .chatThrew hloaded hforms
    · cases hr
    · cases hr
  · rcases hQ with ⟨_, hr, _⟩ | ⟨_, _, _, hr, _⟩ |
      ⟨hloaded, task, hforms, ⟨_, _, hr, _⟩ | ⟨hq, hr, rfl⟩⟩
    · cases hr
    · cases hr
    · cases hr
    · cases hr
      have hcrash : s.handle (handleChatCompletion s.next jsonBody) =
          s.crashes s.engine [] .nullQueue := by
        rw [ht, crashes, List.append_nil]
      rw [hcrash]
      exact .chatFaulted hloaded hq

end Handlers

section Workers

variable (vendor : Vendor σ) {s : System σ} (env : Env)

theorem start_holds {name : String} {task : Task} {tasks : List Task} {model : OgaModel} {state : σ}
    (idle : s.worker = .idle) (queues : s.engine.q = some ⟨name, task :: tasks⟩)
    (holds : s.engine.Holds model state) :
    Transition vendor s (.start env)
      (({ s with engine := s.engine.dequeue name tasks } : System σ).work task
        (startTask vendor env task)) := by
  -- taking the task leaves the handles alone
  have holds' : (s.engine.dequeue name tasks).Holds model state := ⟨holds.1, holds.2, holds.3⟩
  cases hstream : task.req.stream with
  | true =>
    have hcalls : taskCalls task = startCalls := by simp [taskCalls, hstream]
    have hspec : Prog.wp (startTask vendor env task) (fun r w' => match r with
        | .value worker => env.throwsIn startCalls = false ∧
            worker = .guard task (vendor.encode model.path task.formattedOutput) ∧
            w' = { engine := s.engine.dequeue name tasks,
                   log := s.log ++ List.replicate 3 (.used task.id model.epoch) }
        | .exception _ => env.throwsIn startCalls = true ∧
            ∃ uses, Uses task.id model.epoch uses ∧
              w' = { engine := s.engine.dequeue name tasks, log := s.log ++ uses }
        | .undefined _ => False) { engine := s.engine.dequeue name tasks, log := s.log } := by
      rw [startTask, if_pos hstream, Prog.wp_bind]
      apply (streamStart_spec vendor env task holds').mono
      rintro (sequences | what | fault) w' h
      · exact ⟨h.1, by rw [h.2.1], h.2.2⟩
      · exact h
      · exact h
    rcases work_cases (s := { s with engine := s.engine.dequeue name tasks }) task hspec
      with ⟨worker, w, ⟨hcalm, rfl, rfl⟩, ht⟩ | ⟨what, w, ⟨hthrows, uses, huses, rfl⟩, ht⟩ |
        ⟨fault, w, hfalse, ht⟩
    · rw [ht]
      exact .streamStarted idle queues hstream holds hcalm
    · rw [ht]
      have hfailed : Transition vendor s (.start env) _ := .startFailed idle queues
        (by rw [hcalls]; exact hthrows) (Or.inr ⟨model, state, holds, huses⟩)
        (fun empty => absurd empty holds.not_empty)
      simpa only [moves, List.append_assoc] using hfailed
    · exact hfalse.elim
  | false =>
    have hcalls : taskCalls task = generateCalls := by simp [taskCalls, hstream]
    have hspec : Prog.wp (startTask vendor env task) (fun r w' => match r with
        | .value worker => worker = .idle ∧ env.throwsIn generateCalls = false ∧
            ∃ body, w' = { engine := s.engine.dequeue name tasks, log := s.log ++
              [.used task.id model.epoch, .used task.id model.epoch, .used task.id model.epoch,
                .generated task.id, .used task.id model.epoch, .callback task.id .ok body] }
        | .exception _ => env.throwsIn generateCalls = true ∧
            ∃ uses, Uses task.id model.epoch uses ∧
              w' = { engine := s.engine.dequeue name tasks, log := s.log ++ uses }
        | .undefined fault => fault = .outOfBounds ∧ env.throwsIn generateCalls = false ∧
            ∃ uses, Uses task.id model.epoch uses ∧
              w' = { engine := s.engine.dequeue name tasks, log := s.log ++ uses })
        { engine := s.engine.dequeue name tasks, log := s.log } := by
      rw [startTask, if_neg (by simp [hstream]), Prog.wp_bind]
      apply (generateAll_spec vendor env task holds').mono
      rintro (_ | what | fault) w' h
      · exact ⟨rfl, h⟩
      · exact h
      · exact h
    rcases work_cases (s := { s with engine := s.engine.dequeue name tasks }) task hspec
      with ⟨worker, w, ⟨rfl, hcalm, body, rfl⟩, ht⟩ | ⟨what, w, ⟨hthrows, uses, huses, rfl⟩, ht⟩ |
        ⟨fault, w, ⟨rfl, hcalm, uses, huses, rfl⟩, ht⟩
    · rw [ht]
      exact .generated idle queues hstream holds hcalm
    · rw [ht]
      have hfailed : Transition vendor s (.start env) _ := .startFailed idle queues
        (by rw [hcalls]; exact hthrows) (Or.inr ⟨model, state, holds, huses⟩)
        (fun empty => absurd empty holds.not_empty)
      simpa only [moves, List.append_assoc] using hfailed
    · rw [ht]
      exact .generateFaulted idle queues holds hstream hcalm (Or.inr ⟨model, state, holds, huses⟩)

/-- With null handles a task throws before its first dereference, or faults at it. -/
theorem start_empty {name : String} {task : Task} {tasks : List Task} (idle : s.worker = .idle)
    (queues : s.engine.q = some ⟨name, task :: tasks⟩) (empty : s.engine.Empty) :
    Transition vendor s (.start env)
      (({ s with engine := s.engine.dequeue name tasks } : System σ).work task
        (startTask vendor env task)) := by
  -- nothing is logged: both branches dereference the tokenizer before anything else
  have empty' : (s.engine.dequeue name tasks).Empty := ⟨empty.1, empty.2, empty.3⟩
  have hspec : Prog.wp (startTask vendor env task) (fun r w' =>
      w' = { engine := s.engine.dequeue name tasks, log := s.log } ∧ match r with
      | .value _ => False
      | .exception _ => env.fails .sequencesCreate = true
      | .undefined fault => fault = .nullTokenizer ∧ env.fails .sequencesCreate = false)
      { engine := s.engine.dequeue name tasks, log := s.log } := by
    rw [startTask]
    split
    · rw [Prog.wp_bind, streamStart_empty vendor env task empty']
      exact ⟨fun h => ⟨rfl, h⟩, fun h => ⟨rfl, rfl, h⟩⟩
    · rw [Prog.wp_bind, generateAll_empty vendor env task empty']
      exact ⟨fun h => ⟨rfl, h⟩, fun h => ⟨rfl, rfl, h⟩⟩
  rcases work_cases (s := { s with engine := s.engine.dequeue name tasks }) task hspec
    with ⟨worker, w, ⟨_, hfalse⟩, ht⟩ | ⟨what, w, ⟨rfl, hthrows⟩, ht⟩ |
      ⟨fault, w, ⟨rfl, rfl, hcalm⟩, ht⟩
  · exact hfalse.elim
  · rw [ht]
    -- `OgaSequences::Create` is the first call of both branches
    have hthrows' : env.throwsIn (taskCalls task) = true := by
      unfold taskCalls
      split <;> simp [Env.throwsIn, startCalls, generateCalls, prepareCalls, hthrows]
    exact .startFailed idle queues hthrows' (Or.inl rfl) (fun _ => hthrows)
  · rw [ht]
    have hfault : Transition vendor s (.start env) _ := .startFaulted idle queues empty hcalm
    simpa only [crashes, List.append_nil] using hfault

/-- The worker's side of one turn. -/
def turnWorker (task : Task) (sequence : List Int) : EngineM σ Worker := do
  match ← streamIterate vendor env task sequence with
  | some sequence => return .guard task sequence
  | none => return .postLoop task

theorem iterate_holds {task : Task} {sequence : List Int} {model : OgaModel} {state : σ}
    (at_ : s.worker = .guard task sequence) (holds : s.engine.Holds model state) :
    Transition vendor s (.iterate env)
      (s.work task (turnWorker vendor env task sequence)) := by
  have hspec : Prog.wp (turnWorker vendor env task sequence) (fun r w' => match r with
      | .value worker => s.engine.turnThrows env = false ∧
          ((s.engine.turns env = false ∧ worker = .postLoop task ∧ w' = s.toWorld) ∨
          (s.engine.turns env = true ∧ worker = .guard task (sequence ++ [env.token]) ∧
            w' =
              { engine := s.engine.withHandles model
                  (vendor.streamDecode model.path state env.token).1
                log := s.log ++ [.used task.id model.epoch,
                  .decoded task.id env.token (turnText vendor env model state),
                  chunkReply vendor env task.id (turnText vendor env model state)] }))
      | .exception _ => s.engine.turnThrows env = true ∧
          ∃ uses, Uses task.id model.epoch uses ∧ w' = s.toWorld.emits uses
      | .undefined _ => False) s.toWorld := by
    rw [turnWorker, Prog.wp_bind]
    apply (streamIterate_spec vendor env task sequence (w := s.toWorld) holds).mono
    rintro ((_ | grown) | what | fault) w' h
    · exact ⟨h.1, Or.inl ⟨h.2.1, rfl, h.2.2⟩⟩
    · exact ⟨h.1, Or.inr ⟨h.2.1, by rw [h.2.2.1], h.2.2.2⟩⟩
    · exact h
    · exact h
  rcases work_cases task hspec with
    ⟨worker, w, ⟨hcalm, ⟨hstops, rfl, rfl⟩ | ⟨hturns, rfl, rfl⟩⟩, ht⟩ |
    ⟨what, w, ⟨hthrows, uses, huses, rfl⟩, ht⟩ | ⟨fault, w, hfalse, ht⟩
  · rw [ht]
    -- the test itself did not throw, or the turn would have
    have htests : env.fails .isDone = false := by
      simp only [OnnxEngine.turnThrows, Bool.or_eq_false_iff] at hcalm
      exact hcalm.1
    have hleft : Transition vendor s (.iterate env) _ := .loopLeft at_ htests hstops
    simpa only [moves, List.append_nil] using hleft
  · rw [ht]
    exact .turned at_ holds hturns hcalm
  · rw [ht]
    have hfailed : Transition vendor s (.iterate env) _ := .turnFailed at_ hthrows
      (Or.inr ⟨model, state, holds, huses⟩) (fun empty => absurd empty holds.not_empty)
    simpa only [moves, World.emits, List.append_assoc] using hfailed
  · exact hfalse.elim

theorem iterate_empty {task : Task} {sequence : List Int} (at_ : s.worker = .guard task sequence)
    (empty : s.engine.Empty) :
    Transition vendor s (.iterate env)
      (s.work task (turnWorker vendor env task sequence)) := by
  have hspec : Prog.wp (turnWorker vendor env task sequence) (fun r w' => w' = s.toWorld ∧
      match r with
      | .value worker => worker = .postLoop task ∧ env.fails .isDone = false ∧
          s.engine.turns env = false
      | .exception _ => s.engine.turnThrows env = true ∧ s.engine.throwsEarly env = true
      | .undefined fault => fault = .nullTokenizerStream ∧ s.engine.turns env = true ∧
          s.engine.throwsEarly env = false) s.toWorld := by
    rw [turnWorker, Prog.wp_bind]
    apply (streamIterate_empty vendor env task sequence (w := s.toWorld) empty).mono
    rintro ((_ | grown) | what | fault) w' ⟨rfl, h⟩
    · exact ⟨rfl, rfl, h⟩
    · exact h.elim
    · exact ⟨rfl, h⟩
    · exact ⟨rfl, h⟩
  rcases work_cases task hspec with
    ⟨worker, w, ⟨rfl, rfl, htests, hstops⟩, ht⟩ | ⟨what, w, ⟨rfl, hthrows, hearly⟩, ht⟩ |
    ⟨fault, w, ⟨rfl, rfl, hturns, hcalm⟩, ht⟩
  · rw [ht]
    have hleft : Transition vendor s (.iterate env) _ := .loopLeft at_ htests hstops
    simpa only [moves, List.append_nil] using hleft
  · rw [ht]
    exact .turnFailed at_ hthrows (Or.inl rfl) (fun _ => hearly)
  · rw [ht]
    have hfault : Transition vendor s (.iterate env) _ :=
      .turnFaulted at_ empty hturns hcalm
    simpa only [crashes, List.append_nil] using hfault

theorem postLoop_transition {task : Task} (at_ : s.worker = .postLoop task) :
    Transition vendor s .postLoop
      (s.work task do if ← streamPostLoop task then return .throughput task else return .idle) := by
  have hspec : Prog.wp
      (do if ← streamPostLoop task then return Worker.throughput task else return Worker.idle :
        EngineM σ Worker) (fun r w' =>
      (s.engine.modelLoaded = true ∧ r = .value (.throughput task) ∧ w' = s.toWorld) ∨
      (s.engine.modelLoaded = false ∧ r = .value .idle ∧
        w' = s.toWorld.emits [streamUnloadedReply task.id])) s.toWorld := by
    rw [Prog.wp_bind]
    apply (streamPostLoop_spec task).mono
    rintro r w' (⟨hloaded, rfl, rfl⟩ | ⟨hloaded, rfl, rfl⟩)
    · exact Or.inl ⟨hloaded, rfl, rfl⟩
    · exact Or.inr ⟨hloaded, rfl, rfl⟩
  rcases work_cases task hspec with
    ⟨worker, w, ⟨hloaded, hr, rfl⟩ | ⟨hloaded, hr, rfl⟩, ht⟩ |
    ⟨what, w, ⟨_, hr, _⟩ | ⟨_, hr, _⟩, _⟩ | ⟨fault, w, ⟨_, hr, _⟩ | ⟨_, hr, _⟩, _⟩
  · cases hr
    rw [ht]
    have hleft : Transition vendor s .postLoop _ := .leftLoaded at_ hloaded
    simpa only [moves, List.append_nil] using hleft
  · cases hr
    rw [ht]
    exact .leftUnloaded at_ hloaded
  all_goals cases hr

theorem throughput_transition {task : Task} (at_ : s.worker = .throughput task) :
    Transition vendor s (.throughput env)
      (s.work task do
        if ← streamThroughput env then return .reload task else return .finish task) := by
  have hspec : Prog.wp
      (do if ← streamThroughput env then return Worker.reload task else return Worker.finish task :
        EngineM σ Worker) (fun r w' =>
      (env.slow = true ∧ r = .value (.reload task) ∧
        w' = { engine := s.engine.tornDown, log := s.log ++ [.restarting] }) ∨
      (env.slow = false ∧ r = .value (.finish task) ∧ w' = s.toWorld)) s.toWorld := by
    rw [Prog.wp_bind]
    apply (streamThroughput_spec env).mono
    rintro r w' (⟨hslow, rfl, rfl⟩ | ⟨hslow, rfl, rfl⟩)
    · exact Or.inl ⟨hslow, rfl, rfl⟩
    · exact Or.inr ⟨hslow, rfl, rfl⟩
  rcases work_cases task hspec with
    ⟨worker, w, ⟨hslow, hr, rfl⟩ | ⟨hslow, hr, rfl⟩, ht⟩ |
    ⟨what, w, ⟨_, hr, _⟩ | ⟨_, hr, _⟩, _⟩ | ⟨fault, w, ⟨_, hr, _⟩ | ⟨_, hr, _⟩, _⟩
  · cases hr
    rw [ht]
    exact .tornDown at_ hslow
  · cases hr
    rw [ht]
    have hfast : Transition vendor s (.throughput env) _ := .fastEnough at_ hslow
    simpa only [moves, List.append_nil] using hfast
  all_goals cases hr

theorem reload_transition {task : Task} (at_ : s.worker = .reload task) :
    Transition vendor s (.reload env)
      (s.work task do streamReload vendor env task; return .finish task) := by
  have hspec : Prog.wp (do streamReload vendor env task; return Worker.finish task :
        EngineM σ Worker) (fun r w' => match r with
      | .value worker => worker = .finish task ∧ env.throwsIn createCalls = false ∧
          w' =
            { engine := (s.engine.withHandles
                { path := s.engine.path, epoch := restartEpoch s.log s.engine.path }
                (vendor.streamInit s.engine.path)).markLoaded s.engine.modelId env.startTime
              log := s.log ++ [.used task.id (restartEpoch s.log s.engine.path), .restarted] }
      | .exception _ => env.throwsIn createCalls = true ∧ w'.log = s.log ∧
          w'.engine.dropHandles = s.engine.dropHandles
      | .undefined _ => False) s.toWorld := by
    rw [Prog.wp_bind]
    apply (streamReload_spec vendor env task).mono
    rintro (_ | what | fault) w' h
    · exact ⟨rfl, h⟩
    · exact h
    · exact h
  rcases work_cases task hspec with
    ⟨worker, w, ⟨rfl, hcalm, rfl⟩, ht⟩ | ⟨what, w, ⟨hthrows, hlog, hengine⟩, ht⟩ |
    ⟨fault, w, hfalse, ht⟩
  · rw [ht]
    exact .reloaded at_ hcalm
  -- whichever `Create` call threw, the `catch` block clears what the ones before it set
  · rw [ht, hlog, hengine]
    exact .reloadFailed at_ hthrows
  · exact hfalse.elim

end Workers

/-- **Inversion.**  A step is taken before any fault, a handler call only where the grain allows it,
and its outcome is one of the transitions. -/
theorem step_transition {vendor : Vendor σ} {grain : Grain} {s t : System σ} {act : Act}
    (aligned : s.engine.Aligned) (h : step vendor grain s act = some t) :
    s.fault = none ∧ ((handler vendor s.next act).isSome → grain.allows s.worker = true) ∧
      Transition vendor s act t := by
  rw [step] at h
  split at h
  · cases h
  rename_i hfault
  have hfault : s.fault = none := by simpa using hfault
  refine ⟨hfault, ?_⟩
  split at h
  · rename_i body hbody
    split at h
    · rename_i hallows
      refine ⟨fun _ => hallows, ?_⟩
      cases h
      cases act with
      | loadModel env jsonBody =>
        cases hbody
        exact loadModel_transition vendor s jsonBody env
      | unloadModel jsonBody =>
        cases hbody
        exact unloadModel_transition vendor s jsonBody
      | handleChatCompletion jsonBody =>
        cases hbody
        exact handleChatCompletion_transition vendor s jsonBody
      | handleEmbedding jsonBody =>
        cases hbody
        have hquiet : s.handle (handleEmbedding s.next jsonBody) = s.answer s.engine [] := by
          rw [answer, List.append_nil]
          rfl
        rw [hquiet]
        exact .embedding
      | getModelStatus jsonBody =>
        cases hbody
        exact .modelStatus
      | getModels jsonBody =>
        cases hbody
        exact .models
      -- the worker's acts have no handler
      | start | iterate | postLoop | throughput | reload | finish => cases hbody
    · cases h
  · rename_i hnone
    -- no handler: a step of the worker, at the place where it stands
    refine ⟨fun hsome => absurd hsome (by simp [hnone]), ?_⟩
    unfold workerStep at h
    split at h
    · rename_i env hidle
      split at h
      · rename_i name task tasks hqueue
        cases h
        -- here and in a turn the pieces differ with null handles
        rcases aligned with empty | ⟨model, state, holds⟩
        · exact start_empty vendor env hidle hqueue empty
        · exact start_holds vendor env hidle hqueue holds
      · cases h
    · rename_i env task sequence hat
      cases h
      rcases aligned with empty | ⟨model, state, holds⟩
      · exact iterate_empty vendor env hat empty
      · exact iterate_holds vendor env hat holds
    · rename_i task hat
      cases h
      exact postLoop_transition vendor hat
    · rename_i env task hat
      cases h
      exact throughput_transition vendor env hat
    · rename_i env task hat
      cases h
      exact reload_transition vendor env hat
    · rename_i env task hat
      cases h
      exact .finished hat
    · cases h

end System

end CortexOnnx
