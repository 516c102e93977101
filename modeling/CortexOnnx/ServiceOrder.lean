import CortexOnnx.Lib.Amortized
import CortexOnnx.ReplyProtocol

/-!
# The order and the cost of service

The queue has one thread.  Requests are served one at a time in the order in which they were
admitted, and since only the turns of a stream repeat, what the worker does in a run is bounded by
what was admitted and what was decoded.
-/

namespace CortexOnnx

variable {σ : Type} {vendor : Vendor σ} {grain : Grain}

def Event.queued? : Event → Option Nat
  | .queued id => some id
  | _ => none

/-- The request that a terminal callback answers. -/
def Event.ended? : Event → Option Nat
  | .callback id status _ => if status.terminal then some id else none
  | _ => none

/-- The request of any event but its admission. -/
def Event.served? : Event → Option Nat
  | .queued _ => none
  | event => event.subject?

def queuedIds (log : List Event) : List Nat := log.filterMap Event.queued?

/-- What `f` reads about queued requests.  A call that answers by itself is not among them. -/
def ofQueued (f : Event → Option Nat) (log : List Event) : List Nat :=
  (log.filterMap f).filter fun id => id ∈ queuedIds log

def endedIds (log : List Event) : List Nat := ofQueued Event.ended? log

def servedIds (log : List Event) : List Nat := ofQueued Event.served? log

@[simp] theorem queuedIds_append (before after : List Event) :
    queuedIds (before ++ after) = queuedIds before ++ queuedIds after := List.filterMap_append

theorem mem_queuedIds {id : Nat} {log : List Event} : id ∈ queuedIds log ↔ .queued id ∈ log := by
  rw [queuedIds, List.mem_filterMap]
  constructor
  · rintro ⟨e, he, hid⟩
    cases e <;> cases hid
    exact he
  · intro he
    exact ⟨_, he, rfl⟩

theorem Concerns.queuedIds {id : Nat} {events : List Event} (h : Concerns id events) :
    queuedIds events = [] := by
  apply List.filterMap_eq_nil_iff.mpr
  intro e he
  cases hqueued : e.queued? with
  | none => rfl
  | some id' =>
    cases e <;> cases hqueued
    exact absurd rfl ((h _ he).2 id')

section Readings

variable {f : Event → Option Nat} (subject : ∀ e id, f e = some id → e.subject? = some id)
include subject

/-- All that is read of a step is the one request it concerns. -/
theorem Concerns.reads {id : Nat} {events : List Event} (h : Concerns id events) :
    ∀ m ∈ events.filterMap f, m = id := by
  intro m hm
  obtain ⟨e, he, hread⟩ := List.mem_filterMap.mp hm
  have hsubject := subject e m hread
  rcases h.subject e he with hown | hnone
  · rw [hsubject] at hown
    exact Option.some.inj hown
  · rw [hsubject] at hnone
    cases hnone

theorem ofQueued_append {log events : List Event} {id : Nat} (h : Concerns id events)
    (hqueued : .queued id ∈ log) :
    ofQueued f (log ++ events) = ofQueued f log ++ events.filterMap f := by
  have hall : (events.filterMap f).filter (fun m => m ∈ queuedIds log) = events.filterMap f := by
    apply List.filter_eq_self.mpr
    intro m hm
    rw [h.reads subject m hm]
    exact decide_eq_true (mem_queuedIds.mpr hqueued)
  rw [ofQueued, queuedIds_append, h.queuedIds, List.append_nil, List.filterMap_append,
    List.filter_append, hall]
  rfl

theorem ofQueued_answered {log events : List Event} {id : Nat} (h : Concerns id events)
    (hqueued : .queued id ∉ log) : ofQueued f (log ++ events) = ofQueued f log := by
  have hnone : (events.filterMap f).filter (fun m => m ∈ queuedIds log) = [] := by
    apply List.filter_eq_nil_iff.mpr
    intro m hm
    rw [h.reads subject m hm]
    simpa [mem_queuedIds] using hqueued
  rw [ofQueued, queuedIds_append, h.queuedIds, List.append_nil, List.filterMap_append,
    List.filter_append, hnone, List.append_nil]
  rfl

/-- The number of a request that is admitted now was not read before. -/
theorem ofQueued_admitted {log : List Event} {id : Nat}
    (hunborn : about Event.subject? id log = []) (hnone : f (.queued id) = none) :
    ofQueued f (log ++ [.queued id]) = ofQueued f log := by
  have hnew : ∀ m ∈ log.filterMap f, m ≠ id := by
    rintro m hm rfl
    obtain ⟨e, he, hread⟩ := List.mem_filterMap.mp hm
    have hmem := mem_about.mpr ⟨he, subject e m hread⟩
    rw [hunborn] at hmem
    exact absurd hmem List.not_mem_nil
  rw [ofQueued, ofQueued, List.filterMap_append, List.filterMap_cons_none hnone,
    List.filterMap_nil, List.append_nil]
  apply List.filter_congr
  intro m hm
  simp [queuedIds, Event.queued?, hnew m hm]

end Readings

theorem ended_subject (e : Event) (id : Nat) (h : e.ended? = some id) :
    e.subject? = some id := by
  cases e with
  | callback id' status body =>
    simp only [Event.ended?, Option.ite_none_right_eq_some] at h
    exact h.2
  | _ => cases h

theorem served_subject (e : Event) (id : Nat) (h : e.served? = some id) :
    e.subject? = some id := by
  cases e <;> first | exact h | cases h

/-- Only replies end a request. -/
theorem filterMap_ended {id : Nat} {events : List Event} (h : Concerns id events) :
    events.filterMap Event.ended? =
      ((replies events).filter fun reply => reply.1.terminal).map fun _ => id := by
  induction events with
  | nil => rfl
  | cons e events ih =>
    have hrest : Concerns id events := fun e' he' => h e' (List.mem_cons_of_mem _ he')
    have hown := (h e List.mem_cons_self).1
    cases e with
    | callback id' status body =>
      have hid : id' = id := by simpa [Event.subject?] using hown
      subst hid
      have hmore := ih hrest
      rw [replies] at hmore
      cases hterminal : status.terminal with
      | true => simp [Event.ended?, replies, Event.reply?, hterminal, hmore]
      | false => simp [Event.ended?, replies, Event.reply?, hterminal, hmore]
    | _ => exact ih hrest

namespace System

/-- The requests admitted are the ones ended and then the ones alive, and what was done for them was
done in that order. -/
structure InOrder (s : System σ) : Prop where
  sorted : (queuedIds s.log).Pairwise (· < ·)
  conserved : queuedIds s.log = endedIds s.log ++ s.alive.map Task.id
  served : (servedIds s.log).Pairwise (· ≤ ·)
  behind : ∀ id ∈ servedIds s.log, ∀ task ∈ s.alive, id ≤ task.id

theorem fresh_inOrder (startTime : Nat) (maxHistoryChat : Int) :
    (fresh startTime maxHistoryChat : System σ).InOrder where
  sorted := List.Pairwise.nil
  conserved := rfl
  served := List.Pairwise.nil
  behind := fun _ h => absurd h List.not_mem_nil

/-- Work on the task at the front. -/
theorem InOrder.front {s t : System σ} {task : Task} {others : List Task} {events : List Event}
    (h : s.InOrder) (ledger : s.Ledger vendor) (front : s.alive = task :: others)
    (log : t.log = s.log ++ events) (concerns : Concerns task.id events)
    (alive : t.alive = task :: others ∨ t.alive = others)
    (conserved : queuedIds t.log = endedIds t.log ++ t.alive.map Task.id) : t.InOrder := by
  have hmem : task ∈ s.alive := by rw [front]; exact List.mem_cons_self
  have hserved : servedIds t.log = servedIds s.log ++ events.filterMap Event.served? := by
    rw [log]
    exact ofQueued_append served_subject concerns (ledger.admitted task hmem)
  have hnew : ∀ m ∈ events.filterMap Event.served?, m = task.id := concerns.reads served_subject
  -- the front has the least number of all that are alive
  have hleast : ∀ other ∈ t.alive, task.id ≤ other.id := by
    intro other hother
    have hold : other ∈ task :: others := by
      rcases alive with halive | halive
      · rwa [halive] at hother
      · rw [halive] at hother
        exact List.mem_cons_of_mem _ hother
    rcases List.mem_cons.mp hold with rfl | hbehind
    · exact Nat.le_refl _
    · have hsorted := ledger.sorted
      rw [front, List.map_cons, List.pairwise_cons] at hsorted
      have hlt := hsorted.1 other.id (List.mem_map_of_mem hbehind)
      omega
  constructor
  · rw [log, queuedIds_append, concerns.queuedIds, List.append_nil]
    exact h.sorted
  · exact conserved
  · rw [hserved, List.pairwise_append]
    refine ⟨h.served, ?_, ?_⟩
    · apply List.pairwise_of_forall_mem_list
      intro m hm n hn
      exact Nat.le_of_eq ((hnew m hm).trans (hnew n hn).symm)
    · intro m hm n hn
      rw [hnew n hn]
      exact h.behind m hm task hmem
  · intro m hm other hother
    have htask := hleast other hother
    rw [hserved, List.mem_append] at hm
    rcases hm with hold | hm
    · have hle := h.behind m hold task hmem
      omega
    · rw [hnew m hm]
      exact htask

theorem View.inOrder {s t : System σ} (view : View vendor s t) (ledger : s.Ledger vendor)
    (h : s.InOrder) (hrunning : t.fault = none) : t.InOrder := by
  cases view with
  | answers log concerns next alive =>
    have hnot : .queued s.next ∉ s.log := by
      intro hqueued
      have hlt := ledger.lt_next hqueued rfl
      omega
    have hsame : queuedIds t.log = queuedIds s.log := by
      rw [log, queuedIds_append, concerns.queuedIds, List.append_nil]
    have hended : endedIds t.log = endedIds s.log := by
      rw [log]
      exact ofQueued_answered ended_subject concerns hnot
    have hserved : servedIds t.log = servedIds s.log := by
      rw [log]
      exact ofQueued_answered served_subject concerns hnot
    constructor
    · rw [hsame]
      exact h.sorted
    · rw [hsame, hended, alive]
      exact h.conserved
    · rw [hserved]
      exact h.served
    · rw [hserved, alive]
      exact h.behind
  | @admits task log id next alive =>
    have hunborn : about Event.subject? task.id s.log = [] :=
      ledger.unborn task.id (by omega)
    have hended : endedIds t.log = endedIds s.log := by
      rw [log]
      exact ofQueued_admitted ended_subject hunborn rfl
    have hserved : servedIds t.log = servedIds s.log := by
      rw [log]
      exact ofQueued_admitted served_subject hunborn rfl
    -- every number read so far is smaller than the new one
    have hlt : ∀ m ∈ queuedIds s.log, m < task.id := by
      intro m hm
      have hlt := ledger.lt_next (mem_queuedIds.mp hm) rfl
      omega
    constructor
    · rw [log, queuedIds_append, List.pairwise_append]
      refine ⟨h.sorted, List.pairwise_singleton _ _, ?_⟩
      intro m hm n hn
      rw [List.mem_singleton.mp hn]
      exact hlt m hm
    · rw [log, queuedIds_append, ← log, hended, alive, List.map_append, h.conserved,
        List.append_assoc]
      rfl
    · rw [hserved]
      exact h.served
    · intro m hm other hother
      rw [hserved] at hm
      rw [alive, List.mem_append, List.mem_singleton] at hother
      rcases hother with hold | rfl
      · exact h.behind m hm other hold
      · exact Nat.le_of_lt (hlt m (by simpa using (List.mem_filter.mp hm).2))
  | @works task others events front log concerns next alive transcript streams =>
    have hmem : task ∈ s.alive := by rw [front]; exact List.mem_cons_self
    refine h.front ledger front log concerns (Or.inl alive) ?_
    obtain ⟨chunks, hreplies, hchunks⟩ := transcript
    -- all it says is chunks
    have hnone : events.filterMap Event.ended? = [] := by
      rw [filterMap_ended concerns, hreplies, List.append_nil, List.filter_eq_nil_iff.mpr]
      · rfl
      · intro reply hreply
        rw [chunks_status hchunks reply hreply]
        decide
    have hended : endedIds t.log = endedIds s.log := by
      rw [log, endedIds, ofQueued_append ended_subject concerns (ledger.admitted task hmem), hnone,
        List.append_nil]
      rfl
    rw [hended, log, queuedIds_append, concerns.queuedIds, List.append_nil, alive, ← front]
    exact h.conserved
  | @ends task others events status body front log concerns next alive ending only silent =>
    have hmem : task ∈ s.alive := by rw [front]; exact List.mem_cons_self
    refine h.front ledger front log concerns (Or.inr alive) ?_
    have hone : events.filterMap Event.ended? = [task.id] := by
      have hterminal : status.terminal = true := ending.terminal
      rw [filterMap_ended concerns, only]
      simp [hterminal]
    have hended : endedIds t.log = endedIds s.log ++ [task.id] := by
      rw [log, endedIds, ofQueued_append ended_subject concerns (ledger.admitted task hmem), hone]
      rfl
    rw [hended, log, queuedIds_append, concerns.queuedIds, List.append_nil, alive, h.conserved,
      front, List.append_assoc]
    rfl
  | faults log concerns owner quiet next alive fault =>
    rw [hrunning] at fault
    cases fault

/-- **Requests are served in the order of their admission**, one at a time: the admitted ones are
those that were told an end followed by those alive, and no event of one falls among the events of
another. -/
theorem run_inOrder {startTime : Nat} {maxHistoryChat : Int} {es : List (System σ × Act)}
    {t : System σ} (hrun : Run (step vendor grain) (fresh startTime maxHistoryChat) es t)
    (running : t.fault = none) : t.InOrder := by
  have hboth : t.Tracked ∧ t.Ledger vendor ∧ (t.fault = none → t.InOrder) := by
    apply run_invariant hrun (fresh_tracked startTime maxHistoryChat)
    · exact ⟨fresh_ledger startTime maxHistoryChat, fun _ => fresh_inOrder startTime maxHistoryChat⟩
    · rintro s act t _ hrunning ht ⟨hledger, horder⟩
      exact ⟨ht.view.ledger hledger hrunning, ht.view.inOrder hledger (horder hrunning)⟩
  exact hboth.2.2 running

/-- A stream and a whole answer, queued together. -/
def twoRequests : List Act :=
  [.loadModel {} (loadRequest "m"), .handleChatCompletion (chatRequest true "x"), .start {},
    .handleChatCompletion (chatRequest false "y"), .iterate { token := 104 },
    .iterate { isDone := true }, .postLoop, .throughput {}, .finish {}, .getModels .null,
    .start { output := List.replicate 40 104 }]

theorem inOrder_of_twoRequests : ∃ t,
    execute (step utf8Vendor .fine) (fresh 0 0) twoRequests = some t ∧ t.InOrder := by
  have hruns : (execute (step utf8Vendor .fine) (fresh 0 0) twoRequests).any
      (fun t => t.fault.isNone) = true := by decide
  obtain ⟨t, hexecute, hrun, hrunning⟩ := exists_run_of_execute hruns
  exact ⟨t, hexecute, run_inOrder hrun (by simpa using hrunning)⟩

/-! ## The cost -/

end System

/-- A step of the worker. -/
def Act.isWork : Act → Bool
  | .start _ | .iterate _ | .postLoop | .throughput _ | .reload _ | .finish _ => true
  | .loadModel _ _ | .unloadModel _ | .handleChatCompletion _ | .handleEmbedding _
  | .getModelStatus _ | .getModels _ => false

/-- The steps between here and the end of the task, without the turns of its loop. -/
def Worker.stage : Worker → Nat
  | idle => 0
  | finish _ => 1
  | reload _ => 2
  | throughput _ => 3
  | postLoop _ => 4
  | guard _ _ => 5

/-- The worker's next step, in a given environment. -/
def Worker.act (env : Env) : Worker → Act
  | idle => .start env
  | guard _ _ => .iterate env
  | postLoop _ => .postLoop
  | throughput _ => .throughput env
  | reload _ => .reload env
  | finish _ => .finish env

theorem Worker.act_isWork (env : Env) (worker : Worker) : (worker.act env).isWork = true := by
  cases worker <;> rfl

namespace System

/-- What the worker may still do without decoding a token. -/
def workLeft (s : System σ) : Nat :=
  if s.fault.isSome then 0 else 6 * s.engine.waiting.length + s.worker.stage

/-- What the requests and the tokens so far account for. -/
def workOwed (log : List Event) : Nat := 6 * (queuedIds log).length + (texts log).length

theorem workOwed_append (log events : List Event) :
    workOwed (log ++ events) = workOwed log + workOwed events := by
  rw [workOwed, workOwed, workOwed, queuedIds_append, texts_append, List.length_append,
    List.length_append]
  omega

theorem workLeft_running {s : System σ} (running : s.fault = none) :
    s.workLeft = 6 * s.engine.waiting.length + s.worker.stage := by
  rw [workLeft, running]
  rfl

section Payments

variable {s : System σ} {engine : OnnxEngine σ} {events : List Event}

theorem paid_of_answer (waiting : engine.waiting = s.engine.waiting) :
    (s.answer engine events).workLeft + workOwed s.log ≤
      s.workLeft + workOwed (s.answer engine events).log := by
  rw [workLeft, answer_fault, answer_engine, answer_worker, waiting, ← workLeft, answer_log,
    workOwed_append]
  omega

theorem paid_of_moves {worker : Worker} (running : s.fault = none)
    (left : 1 + (6 * engine.waiting.length + worker.stage) ≤
      6 * s.engine.waiting.length + s.worker.stage + workOwed events) :
    1 + (s.moves engine events worker).workLeft + workOwed s.log ≤
      s.workLeft + workOwed (s.moves engine events worker).log := by
  rw [workLeft_running (s := s.moves engine events worker) running, workLeft_running running,
    moves_engine, moves_worker, moves_log, workOwed_append]
  omega

/-- After a fault nothing is left to do. -/
theorem paid_of_crash {fault : Fault} (running : s.fault = none)
    (left : 1 ≤ 6 * s.engine.waiting.length + s.worker.stage) :
    1 + (s.crashes engine events fault).workLeft + workOwed s.log ≤
      s.workLeft + workOwed (s.crashes engine events fault).log := by
  have hdone : (s.crashes engine events fault).workLeft = 0 := rfl
  rw [hdone, workLeft_running running, crashes_log, workOwed_append]
  omega

end Payments

theorem waiting_length {s : System σ} {name : String} {task : Task} {tasks : List Task}
    (queues : s.engine.q = some ⟨name, task :: tasks⟩) :
    s.engine.waiting.length = tasks.length + 1 := by
  rw [OnnxEngine.waiting_eq queues]
  rfl

/-- A step of the worker starts a task, goes one stage on or decodes a token. -/
theorem Transition.paid {s t : System σ} {act : Act} (ht : Transition vendor s act t)
    (running : s.fault = none) :
    act.isWork.toNat + t.workLeft + workOwed s.log ≤ s.workLeft + workOwed t.log := by
  cases ht with
  | loadThrew | loadFailed | unloadRefused | unloaded | chatRefused | chatThrew | embedding
  | modelStatus | models =>
    rw [Act.isWork, Bool.toNat_false, Nat.zero_add]
    exact paid_of_answer rfl
  | loaded =>
    rw [Act.isWork, Bool.toNat_false, Nat.zero_add]
    exact paid_of_answer (OnnxEngine.waiting_markLoaded _ _ _)
  | @chatQueued jsonBody task queue set forms queues =>
    have hone : workOwed [Event.queued s.next] = 6 := rfl
    rw [workLeft_running (s := s.answer _ _) running, workLeft_running running, answer_engine,
      answer_worker, answer_log, workOwed_append, OnnxEngine.waiting_enqueue task queues, hone,
      List.length_append, List.length_singleton, Act.isWork, Bool.toNat_false]
    omega
  | chatFaulted =>
    have hdone : (s.crashes s.engine [] .nullQueue).workLeft = 0 := rfl
    rw [hdone, crashes_log, List.append_nil, Act.isWork, Bool.toNat_false]
    omega
  | streamStarted idle queues | generated idle queues | startFailed idle queues =>
    apply paid_of_moves running
    rw [waiting_length queues]
    show 1 + (6 * List.length _ + Worker.stage _) ≤ _
    simp only [OnnxEngine.waiting, OnnxEngine.dequeue, OnnxEngine.dropHandles, Worker.stage]
    omega
  | startFaulted idle queues | generateFaulted idle queues =>
    apply paid_of_crash running
    rw [waiting_length queues]
    omega
  | turned at_ =>
    apply paid_of_moves running
    rw [at_]
    show 1 + (6 * s.engine.waiting.length + 5) ≤ 6 * s.engine.waiting.length + 5 + 1
    omega
  | turnFaulted at_ =>
    apply paid_of_crash running
    rw [at_, Worker.stage]
    omega
  | reloaded at_ =>
    apply paid_of_moves running
    rw [at_, OnnxEngine.waiting_markLoaded]
    show 1 + (6 * s.engine.waiting.length + 1) ≤ 6 * s.engine.waiting.length + 2 + 0
    omega
  -- one stage on, or to the end
  | loopLeft at_ | turnFailed at_ | leftUnloaded at_ | leftLoaded at_ | tornDown at_
  | fastEnough at_ | reloadFailed at_ | finished at_ =>
    apply paid_of_moves running
    rw [at_]
    show 1 + (6 * s.engine.waiting.length + Worker.stage _) ≤ _
    simp only [Worker.stage]
    omega

/-- While there is a task the worker has a step, whatever it meets in it. -/
theorem works_on {s : System σ} (running : s.fault = none) (busy : s.alive ≠ []) (env : Env) :
    (step vendor grain s (s.worker.act env)).isSome = true := by
  cases hworker : s.worker with
  | idle =>
    have hwaiting : s.engine.waiting ≠ [] := by simpa [alive, hworker, Worker.task?] using busy
    obtain ⟨task, others, hfront⟩ := List.exists_cons_of_ne_nil hwaiting
    obtain ⟨name, hqueue⟩ := OnnxEngine.queue_of_waiting hfront
    simp [Worker.act, step, handler, workerStep, running, hworker, hqueue]
  | guard | postLoop | throughput | reload | finish =>
    simp [Worker.act, step, handler, workerStep, running, hworker]

/-- **The worker neither stops early nor runs for nothing.**  In every run its steps number at most
six for each request admitted and one for each token decoded, and while a task is alive it has a
step to take. -/
theorem run_work_le {startTime : Nat} {maxHistoryChat : Int} {es : List (System σ × Act)}
    {t : System σ} (hrun : Run (step vendor grain) (fresh startTime maxHistoryChat) es t) :
    totalCost (fun act => act.isWork.toNat) es ≤
        6 * (queuedIds t.log).length + (texts t.log).length ∧
      (t.fault = none → t.alive ≠ [] →
        ∀ env, (step vendor grain t (t.worker.act env)).isSome = true) := by
  refine ⟨?_, works_on⟩
  have hpaid := hrun.totalCost_le (I := fun s => s.Tracked) (fun act => act.isWork.toNat)
    workLeft (fun s => workOwed s.log) (fresh_tracked startTime maxHistoryChat)
    (fun s act t hs htaken => hs.after htaken)
    (fun s act t hs htaken => by
      obtain ⟨running, _, ht⟩ := step_transition hs.aligned htaken
      exact ht.paid running)
  have hnothing : (fresh startTime maxHistoryChat : System σ).workLeft = 0 := rfl
  rw [hnothing] at hpaid
  show _ ≤ workOwed t.log
  omega

theorem work_le_of_twoRequests : ∃ es t,
    Run (step utf8Vendor .fine) (fresh 0 0) es t ∧
      totalCost (fun act => act.isWork.toNat) es ≤
        6 * (queuedIds t.log).length + (texts t.log).length ∧
      (t.fault = none → t.alive ≠ [] →
        ∀ env, (step utf8Vendor .fine t (t.worker.act env)).isSome = true) := by
  have hruns : (execute (step utf8Vendor .fine) (fresh 0 0) twoRequests).any
      (fun t => t.fault.isNone) = true := by decide
  obtain ⟨t, _, hrun, _⟩ := exists_run_of_execute hruns
  exact ⟨_, t, hrun, run_work_le hrun⟩

/-! ## Draining -/

/-- Every library call throws. -/
def allFailing : Env := { fails := fun _ => true }

/-- A step in which every call throws does not fault and decodes nothing. -/
theorem Transition.failing {s t : System σ} (running : s.fault = none)
    (ht : Transition vendor s (s.worker.act allFailing) t) :
    t.fault = none ∧ workOwed t.log = workOwed s.log := by
  have hquiet : ∀ {events : List Event}, t.log = s.log ++ events → workOwed events = 0 →
      workOwed t.log = workOwed s.log := by
    intro events log hnothing
    rw [log, workOwed_append, hnothing, Nat.add_zero]
  have hcaught : ∀ {id : Nat} {uses : List Event}, s.engine.MayUse id uses →
      workOwed (uses ++ failedEvents id) = 0 := by
    intro id uses used
    obtain ⟨epoch, huses⟩ := used.uses
    rw [workOwed_append, workOwed, (uses_quiet huses).2, (uses_concerns huses).queuedIds]
    rfl
  cases hworker : s.worker with
  | idle =>
    rw [hworker] at ht
    cases ht with
    | startFailed _ _ _ used => exact ⟨running, hquiet rfl (hcaught used)⟩
    | streamStarted _ _ _ _ succeeds | generated _ _ _ _ succeeds => cases succeeds
    | generateFaulted _ _ _ _ succeeds => cases succeeds
    | startFaulted _ _ _ reached => cases reached
  | guard task sequence =>
    rw [hworker] at ht
    cases ht with
    | turnFailed _ _ used => exact ⟨running, hquiet rfl (hcaught used)⟩
    | turned _ _ _ succeeds => cases succeeds
    | loopLeft _ tests => cases tests
    | turnFaulted _ _ _ reached => cases reached
  | postLoop task =>
    rw [hworker] at ht
    cases ht with
    | leftUnloaded | leftLoaded => exact ⟨running, hquiet rfl rfl⟩
  | throughput task =>
    rw [hworker] at ht
    cases ht with
    | tornDown | fastEnough => exact ⟨running, hquiet rfl rfl⟩
  | reload task =>
    rw [hworker] at ht
    cases ht with
    | reloaded _ succeeds => cases succeeds
    | reloadFailed => exact ⟨running, hquiet rfl rfl⟩
  | finish task =>
    rw [hworker] at ht
    cases ht with
    | finished => exact ⟨running, hquiet rfl rfl⟩

/-- Every task can be brought to its end by steps of the worker. -/
theorem exists_drained {s : System σ} (tracked : s.Tracked) (running : s.fault = none) :
    ∃ es t, Run (step vendor grain) s es t ∧ EveryStep (fun _ act => act.isWork = true) es ∧
      (t.Tracked ∧ t.fault = none) ∧ t.alive = [] := by
  apply exists_run_of_decreasing (I := fun s => s.Tracked ∧ s.fault = none) workLeft ?_
    ⟨tracked, running⟩
  rintro s ⟨htracked, hrunning⟩ hbusy
  have henabled : (step vendor grain s (s.worker.act allFailing)).isSome = true :=
    works_on hrunning hbusy allFailing
  obtain ⟨t, htaken⟩ := Option.isSome_iff_exists.mp henabled
  have ht := htracked.transition htaken
  obtain ⟨hfault, howed⟩ := ht.failing hrunning
  have hpaid := ht.paid hrunning
  rw [Worker.act_isWork, Bool.toNat_true, howed] at hpaid
  exact ⟨_, t, Worker.act_isWork _ _, htaken, ⟨htracked.after htaken, hfault⟩, by omega⟩

end System

end CortexOnnx
