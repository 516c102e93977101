import Mathlib.Data.List.Forall2
import CortexOnnx.Tracking

/-!
# Steps as a client sees them

Every event but the ones about loading belongs to one request.  The tasks alive are the running one
and those that wait, oldest first; a step admits a task at the back, works on the one at the front,
or answers a call.  `View` is the list of these outcomes with the callbacks each makes.
-/

namespace CortexOnnx

variable {σ : Type} {vendor : Vendor σ}

/-- The request an event belongs to. -/
def Event.subject? : Event → Option Nat
  | .callback id _ _ | .threw id | .queued id | .used id _ | .decoded id _ _ | .generated id
  | .inferenceError id => some id
  | .modelLoaded _ | .loadFailed | .modelUnloaded | .restarting | .restarted => none

/-- The status and body of a callback. -/
def Event.reply? : Event → Option (Status × Json)
  | .callback _ status body => some (status, body)
  | _ => none

/-- The text of a completed turn. -/
def Event.text? : Event → Option String
  | .decoded _ _ text => some text
  | _ => none

def replies (events : List Event) : List (Status × Json) := events.filterMap Event.reply?

def texts (events : List Event) : List String := events.filterMap Event.text?

@[simp] theorem replies_append (before after : List Event) :
    replies (before ++ after) = replies before ++ replies after := List.filterMap_append

@[simp] theorem texts_append (before after : List Event) :
    texts (before ++ after) = texts before ++ texts after := List.filterMap_append

/-- The callback for a text of the stream, for some clock and random id. -/
def IsChunk (vendor : Vendor σ) (reply : Status × Json) (text : String) : Prop :=
  ∃ env : Env, reply = (.chunk, dataBody (chunkData vendor env text))

theorem exists_isChunk {chunks : List (Status × Json)} {texts : List String}
    (h : List.Forall₂ (IsChunk vendor) chunks texts) :
    ∀ reply ∈ chunks, ∃ text, IsChunk vendor reply text := by
  induction h with
  | nil => exact fun _ hmem => absurd hmem List.not_mem_nil
  | cons hchunk _ ih =>
    intro reply hmem
    rcases List.mem_cons.mp hmem with rfl | hmem
    · exact ⟨_, hchunk⟩
    · exact ih reply hmem

theorem chunks_status {chunks : List (Status × Json)} {texts : List String}
    (h : List.Forall₂ (IsChunk vendor) chunks texts) : ∀ reply ∈ chunks, reply.1 = .chunk := by
  intro reply hmem
  obtain ⟨text, env, rfl⟩ := exists_isChunk h reply hmem
  rfl

/-- The replies are one chunk for each text, in the same order, and then `last`. -/
def Transcript (vendor : Vendor σ) (events : List Event) (last : List (Status × Json)) : Prop :=
  ∃ chunks, replies events = chunks ++ last ∧ List.Forall₂ (IsChunk vendor) chunks (texts events)

/-- Events with neither a callback nor a text. -/
def Quiet (events : List Event) : Prop := replies events = [] ∧ texts events = []

theorem transcript_of_silent {events : List Event} (h : texts events = []) :
    Transcript vendor events (replies events) :=
  ⟨[], rfl, by rw [h]; exact List.Forall₂.nil⟩

theorem Quiet.transcript {events : List Event} (h : Quiet events) :
    Transcript vendor events [] := by
  have hsilent : Transcript vendor events (replies events) := transcript_of_silent h.2
  rwa [h.1] at hsilent

/-- A transcript without an end goes on. -/
theorem Transcript.append {before after : List Event} {last : List (Status × Json)}
    (h : Transcript vendor before []) (h' : Transcript vendor after last) :
    Transcript vendor (before ++ after) last := by
  obtain ⟨chunks, hreplies, hchunks⟩ := h
  obtain ⟨chunks', hreplies', hchunks'⟩ := h'
  refine ⟨chunks ++ chunks', ?_, ?_⟩
  · rw [replies_append, hreplies, hreplies', List.append_nil, List.append_assoc]
  · rw [texts_append]
    exact List.rel_append hchunks hchunks'

theorem Transcript.append_quiet {before after : List Event} {last : List (Status × Json)}
    (h : Transcript vendor before last) (h' : Quiet after) :
    Transcript vendor (before ++ after) last := by
  obtain ⟨chunks, hreplies, hchunks⟩ := h
  refine ⟨chunks, ?_, ?_⟩
  · rw [replies_append, h'.1, List.append_nil, hreplies]
  · rw [texts_append, h'.2, List.append_nil]
    exact hchunks

/-- Events of one request, or of none, that queue nothing. -/
def Concerns (id : Nat) (events : List Event) : Prop :=
  ∀ e ∈ events, (e.subject? = some id ∨ e.subject? = none) ∧ ∀ id', e ≠ .queued id'

theorem Concerns.subject {id : Nat} {events : List Event} (h : Concerns id events) :
    ∀ e ∈ events, e.subject? = some id ∨ e.subject? = none := fun e he => (h e he).1

theorem concerns_nil (id : Nat) : Concerns id [] := fun _ he => absurd he List.not_mem_nil

theorem concerns_append {id : Nat} {before after : List Event} :
    Concerns id (before ++ after) ↔ Concerns id before ∧ Concerns id after :=
  List.forall_mem_append

/-- Callbacks and texts have a subject. -/
theorem Concerns.about {id : Nat} {events : List Event} (h : Concerns id events) :
    replies (about Event.subject? id events) = replies events ∧
      texts (about Event.subject? id events) = texts events := by
  constructor
  · apply filterMap_about
    intro e he
    apply (h.subject e he).imp_right
    intro hnone
    cases e <;> first | rfl | cases hnone
  · apply filterMap_about
    intro e he
    apply (h.subject e he).imp_right
    intro hnone
    cases e <;> first | rfl | cases hnone

theorem uses_quiet {id : Nat} {epoch : Option Nat} {uses : List Event} (h : Uses id epoch uses) :
    Quiet uses := by
  constructor
  · apply List.filterMap_eq_nil_iff.mpr
    intro e he
    rcases h e he with rfl | rfl <;> rfl
  · apply List.filterMap_eq_nil_iff.mpr
    intro e he
    rcases h e he with rfl | rfl <;> rfl

theorem uses_concerns {id : Nat} {epoch : Option Nat} {uses : List Event}
    (h : Uses id epoch uses) : Concerns id uses := by
  intro e he
  rcases h e he with rfl | rfl <;> exact ⟨Or.inl rfl, fun _ hqueued => by cases hqueued⟩

/-- The last callback of a task. -/
inductive Ending (vendor : Vendor σ) (stream : Bool) : Status × Json → Prop
  | generated {body : Json} (whole : stream = false) : Ending vendor stream (.ok, body)
  | stopped (env : Env) : Ending vendor stream (.streamStop, dataBody (stopData vendor env))
  | unloaded : Ending vendor stream (.streamUnloaded, dataBody "")
  | failed : Ending vendor stream
      (.failure k500InternalServerError, messageBody "Error during inference")

theorem Ending.terminal {stream : Bool} {reply : Status × Json} (h : Ending vendor stream reply) :
    reply.1.terminal = true := by
  cases h <;> rfl

/-- The tasks that wait. -/
def OnnxEngine.waiting (engine : OnnxEngine σ) : List Task :=
  match engine.q with
  | some queue => queue.tasks
  | none => []

theorem OnnxEngine.waiting_markLoaded (engine : OnnxEngine σ) (modelId : String)
    (startTime : Nat) : (engine.markLoaded modelId startTime).waiting = engine.waiting := by
  rw [waiting, waiting, markLoaded]
  cases engine.q <;> rfl

theorem OnnxEngine.waiting_enqueue {engine : OnnxEngine σ} {queue : ConcurrentTaskQueue}
    (task : Task) (queues : engine.q = some queue) :
    (engine.enqueue queue task).waiting = engine.waiting ++ [task] := by
  simp [waiting, enqueue, queues]

theorem OnnxEngine.waiting_eq {engine : OnnxEngine σ} {name : String} {tasks : List Task}
    (queues : engine.q = some ⟨name, tasks⟩) : engine.waiting = tasks := by
  rw [waiting, queues]

/-- The queue of an engine with tasks. -/
theorem OnnxEngine.queue_of_waiting {engine : OnnxEngine σ} {task : Task} {others : List Task}
    (waits : engine.waiting = task :: others) :
    ∃ name, engine.q = some ⟨name, task :: others⟩ := by
  cases hqueue : engine.q with
  | none => simp [waiting, hqueue] at waits
  | some queue =>
    obtain ⟨name, tasks⟩ := queue
    rw [waiting_eq hqueue] at waits
    exact ⟨name, by rw [waits]⟩

namespace System

/-- The running task and then those that wait. -/
def alive (s : System σ) : List Task := s.worker.task?.toList ++ s.engine.waiting

/-- What a step is to the clients. -/
inductive View (vendor : Vendor σ) (s t : System σ) : Prop
  | answers {events : List Event} (log : t.log = s.log ++ events)
      (concerns : Concerns s.next events) (next : t.next = s.next + 1) (alive : t.alive = s.alive)
  | admits {task : Task} (log : t.log = s.log ++ [.queued task.id]) (id : task.id = s.next)
      (next : t.next = s.next + 1) (alive : t.alive = s.alive ++ [task])
  | works {task : Task} {others : List Task} {events : List Event}
      (front : s.alive = task :: others) (log : t.log = s.log ++ events)
      (concerns : Concerns task.id events) (next : t.next = s.next)
      (alive : t.alive = task :: others) (transcript : Transcript vendor events [])
      (streams : texts events ≠ [] → ∃ sequence, s.worker = .guard task sequence)
  | ends {task : Task} {others : List Task} {events : List Event} {status : Status} {body : Json}
      (front : s.alive = task :: others) (log : t.log = s.log ++ events)
      (concerns : Concerns task.id events) (next : t.next = s.next) (alive : t.alive = others)
      (ending : Ending vendor task.req.stream (status, body))
      (only : replies events = [(status, body)]) (silent : texts events = [])
  | faults {id : Nat} {events : List Event} (log : t.log = s.log ++ events)
      (concerns : Concerns id events) (owner : events = [] ∨ ∃ task ∈ s.alive, task.id = id)
      (quiet : Quiet events) (next : t.next = s.next)
      (alive : t.alive = s.alive ∨ t.alive = s.alive.tail) (fault : t.fault.isSome = true)

theorem alive_of_idle {s : System σ} {name : String} {tasks : List Task} (idle : s.worker = .idle)
    (queues : s.engine.q = some ⟨name, tasks⟩) : s.alive = tasks := by
  simp [alive, idle, Worker.task?, OnnxEngine.waiting, queues]

theorem alive_of_running {s : System σ} {task : Task} (running : s.worker.task? = some task) :
    s.alive = task :: s.engine.waiting := by
  rw [alive, running]
  rfl

/-- A call that queues nothing. -/
theorem View.answered {s : System σ} {engine : OnnxEngine σ} {events : List Event}
    (concerns : Concerns s.next events) (waiting : engine.waiting = s.engine.waiting) :
    View vendor s (s.answer engine events) := by
  refine .answers rfl concerns rfl ?_
  rw [alive, answer_worker, answer_engine, waiting]
  rfl

/-- A step of a running task after which it runs on, with nothing said. -/
theorem View.continued {s : System σ} {engine : OnnxEngine σ} {events : List Event}
    {worker : Worker} {task : Task} (running : s.worker.task? = some task)
    (concerns : Concerns task.id events) (quiet : Quiet events)
    (waiting : engine.waiting = s.engine.waiting) (runs : worker.task? = some task) :
    View vendor s (s.moves engine events worker) := by
  refine .works (alive_of_running running) rfl concerns rfl ?_ quiet.transcript ?_
  · rw [alive, moves_worker, moves_engine, runs, waiting]
    rfl
  · intro htexts
    exact absurd quiet.2 htexts

/-- The `catch` block of a task ends it. -/
theorem View.caught {s : System σ} {task : Task} {others : List Task} {uses : List Event}
    {engine : OnnxEngine σ} (front : s.alive = task :: others)
    (used : s.engine.MayUse task.id uses) (waiting : engine.waiting = others) :
    View vendor s (s.moves engine (uses ++ failedEvents task.id) .idle) := by
  obtain ⟨epoch, huses⟩ := used.uses
  have hquiet := uses_quiet huses
  have hconcerns : Concerns task.id (uses ++ failedEvents task.id) := by
    apply concerns_append.mpr
    refine ⟨uses_concerns huses, ?_⟩
    simp [failedEvents, inferenceFailedReply, Concerns, Event.subject?]
  have hending : replies (uses ++ failedEvents task.id) =
      [(.failure k500InternalServerError, messageBody "Error during inference")] := by
    rw [replies_append, hquiet.1]
    rfl
  have hsilent : texts (uses ++ failedEvents task.id) = [] := by
    rw [texts_append, hquiet.2]
    rfl
  exact .ends front rfl hconcerns rfl waiting .failed hending hsilent

/-- A request is answered in the step that makes the call, or it is admitted; a task is worked on
until the step that ends it makes its one terminal callback. -/
theorem Transition.view {s t : System σ} {act : Act} (ht : Transition vendor s act t) :
    View vendor s t := by
  cases ht with
  | loadThrew => exact .answered (by simp [Concerns, Event.subject?]) rfl
  | @loadFailed env jsonBody config early reads throws told =>
    have hconcerns : Concerns s.next (early ++ [.loadFailed, loadFailedReply s.next]) := by
      rcases told with rfl | rfl <;>
        simp [Concerns, Event.subject?, loadedReply, loadFailedReply]
    exact .answered hconcerns rfl
  | @loaded env jsonBody =>
    have hconcerns : Concerns s.next [loadedReply s.next, .modelLoaded jsonBody] := by
      simp [Concerns, Event.subject?, loadedReply]
    exact .answered hconcerns (OnnxEngine.waiting_markLoaded _ _ _)
  | unloadRefused | chatRefused => exact .answered (by simp [Concerns, Event.subject?, refusal]) rfl
  | modelStatus => exact .answered (by simp [Concerns, Event.subject?, modelStatusReply]) rfl
  | models => exact .answered (by simp [Concerns, Event.subject?, modelsReply]) rfl
  | unloaded => exact .answered (by simp [Concerns, Event.subject?, unloadedReply]) rfl
  | chatThrew => exact .answered (by simp [Concerns, Event.subject?]) rfl
  | embedding => exact .answered (concerns_nil _) rfl
  -- the task carries the number of the call, so its record starts here
  | @chatQueued jsonBody task queue set forms queues =>
    have hid := formTask_id forms
    have hlog : (s.answer (s.engine.enqueue queue task) [.queued s.next]).log =
        s.log ++ [.queued task.id] := by
      rw [hid]
      rfl
    refine .admits hlog hid rfl ?_
    have hwaiting := OnnxEngine.waiting_enqueue task queues
    rw [alive, alive, answer_worker, answer_engine, hwaiting, List.append_assoc]
  -- no event, so the number does not matter
  | chatFaulted => exact .faults rfl (concerns_nil 0) (Or.inl rfl) ⟨rfl, rfl⟩ rfl (Or.inl rfl) rfl
  | @streamStarted env name task tasks model state idle queues =>
    have hconcerns : Concerns task.id (List.replicate 3 (.used task.id model.epoch)) := by
      simp [List.replicate, Concerns, Event.subject?]
    refine .works (alive_of_idle idle queues) rfl hconcerns rfl rfl ?_ ?_
    · exact ⟨[], rfl, List.Forall₂.nil⟩
    · intro htexts
      exact absurd rfl htexts
  | generated idle queues whole =>
    exact .ends (alive_of_idle idle queues) rfl (by simp [Concerns, Event.subject?]) rfl rfl
      (.generated whole) rfl rfl
  | startFailed idle queues throws used => exact .caught (alive_of_idle idle queues) used rfl
  | startFaulted idle queues =>
    refine .faults rfl (concerns_nil 0) (Or.inl rfl) ⟨rfl, rfl⟩ rfl (Or.inr ?_) rfl
    rw [alive_of_idle idle queues]
    simp [alive, idle, Worker.task?, OnnxEngine.waiting, OnnxEngine.dequeue]
  | generateFaulted idle queues holds whole succeeds used =>
    obtain ⟨epoch, huses⟩ := used.uses
    have hfront := alive_of_idle idle queues
    -- the task has left the queue and never reached the worker
    refine .faults rfl (uses_concerns huses) (Or.inr ⟨_, ?_, rfl⟩) (uses_quiet huses) rfl
      (Or.inr ?_) rfl
    · rw [hfront]
      exact List.mem_cons_self
    · rw [hfront]
      simp [alive, idle, Worker.task?, OnnxEngine.waiting, OnnxEngine.dequeue]
  | @turned env task sequence model state at_ =>
    have hrunning : s.worker.task? = some task := by rw [at_]; rfl
    refine .works (alive_of_running hrunning) rfl ?_ rfl rfl ?_ ?_
    · simp [Concerns, Event.subject?, chunkReply]
    -- one text and one chunk
    · exact ⟨[_], rfl, List.Forall₂.cons ⟨env, rfl⟩ List.Forall₂.nil⟩
    · intro _
      exact ⟨sequence, at_⟩
  | loopLeft at_ | leftLoaded at_ | fastEnough at_ =>
    exact .continued (by rw [at_]; rfl) (concerns_nil _) ⟨rfl, rfl⟩ rfl rfl
  | tornDown at_ =>
    exact .continued (by rw [at_]; rfl) (by simp [Concerns, Event.subject?]) ⟨rfl, rfl⟩ rfl rfl
  | reloaded at_ =>
    exact .continued (by rw [at_]; rfl) (by simp [Concerns, Event.subject?]) ⟨rfl, rfl⟩
      (OnnxEngine.waiting_markLoaded _ _ _) rfl
  | turnFailed at_ throws used => exact .caught (alive_of_running (by rw [at_]; rfl)) used rfl
  | turnFaulted => exact .faults rfl (concerns_nil 0) (Or.inl rfl) ⟨rfl, rfl⟩ rfl (Or.inl rfl) rfl
  | leftUnloaded at_ =>
    exact .ends (alive_of_running (by rw [at_]; rfl)) rfl
      (by simp [Concerns, Event.subject?, streamUnloadedReply]) rfl rfl .unloaded rfl rfl
  | finished at_ =>
    exact .ends (alive_of_running (by rw [at_]; rfl)) rfl
      (by simp [Concerns, Event.subject?, stopReply]) rfl rfl (.stopped _) rfl rfl
  | reloadFailed at_ =>
    -- the throw came from a `Create` call, before any use
    have hcaught : View vendor s (s.moves s.engine.dropHandles ([] ++ failedEvents _) .idle) :=
      .caught (alive_of_running (by rw [at_]; rfl)) (Or.inl rfl) rfl
    exact hcaught

end System

end CortexOnnx
