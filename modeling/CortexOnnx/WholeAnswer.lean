import CortexOnnx.CalmRun
import CortexOnnx.ReplyProtocol

/-!
# Answers in one piece

A request that is not a stream is answered from the output of one `Generate` call.  In every run,
whatever else is served, loaded or unloaded in between, that call was made for the request's own
prompt, and the reply decodes what the output has after it.
-/

namespace CortexOnnx

variable {σ : Type} {vendor : Vendor σ} {grain : Grain}

/-- A task that is answered has an output at least as long as its prompt. -/
theorem generateAll_answers {env : Env} (task : Task) {w : World σ} {model : OgaModel} {state : σ}
    (h : w.engine.Holds model state) (counted : env.output.length < 2 ^ 64) :
    Prog.wp (generateAll vendor env task) (fun r w' => r = .value () →
      (vendor.encode model.path task.formattedOutput).length ≤ env.output.length ∧
        w' = w.emits (System.wholeEvents vendor env task.id model
          (env.output.drop (vendor.encode model.path task.formattedOutput).length))) w := by
  rw [generateAll, Prog.wp_bind]
  apply (prepare_spec vendor env task h).mono
  rintro (_ | _ | _) w' h'
  case undefined => exact h'.elim
  case exception =>
    intro hreturned
    cases hreturned
  case value =>
    obtain ⟨_, rfl, rfl⟩ := h'
    simp only [Prog.wp_bind, wp_call, wp_emit, wp_callback]
    rw [wp_useModel task.id (w := w.emits _) h.ogaModel]
    simp only [World.emits_emits]
    refine ⟨fun _ hreturned => (by cases hreturned), fun _ =>
      ⟨fun _ hreturned => (by cases hreturned), fun _ => ?_⟩⟩
    rw [wp_useTokenizer task.id (w := w.emits _) h.tokenizer]
    simp only [World.emits_emits]
    refine ⟨fun _ hreturned => (by cases hreturned), fun _ => ?_⟩
    split
    · rename_i hrange
      simp only [Prog.wp_deref_some, World.emits_emits]
      -- a wrapped difference would reach past the end of the output
      have hlong : (vendor.encode model.path task.formattedOutput).length ≤ env.output.length := by
        omega
      have hlength : (env.output.length + 2 ^ 64 -
          (vendor.encode model.path task.formattedOutput).length) % 2 ^ 64 =
          env.output.length - (vendor.encode model.path task.formattedOutput).length := by
        omega
      have hall : (env.output.drop (vendor.encode model.path task.formattedOutput).length).take
          (env.output.length - (vendor.encode model.path task.formattedOutput).length) =
          env.output.drop (vendor.encode model.path task.formattedOutput).length := by
        apply List.take_of_length_le
        simp
      intro _
      rw [hlength, hall]
      exact ⟨hlong, rfl⟩
    · rw [Prog.wp_deref_none]
      intro hreturned
      cases hreturned

/-- The reply `body` answers `task` from the output of one `Generate` call. -/
structure Answers (vendor : Vendor σ) (env : Env) (model : OgaModel) (task : Task) (body : Json) :
    Prop where
  whole : task.req.stream = false
  prompt : (vendor.encode model.path task.formattedOutput).length ≤ env.output.length
  body : body = createFullReturnJson env.created env.randomString "_"
    (vendor.decode model.path
      (env.output.drop (vendor.encode model.path task.formattedOutput).length)) "_" 0 0

/-- The length of the output that `Generate` returns, a `size_t`. -/
def Act.outputLength : Act → Nat
  | .start env => env.output.length
  | _ => 0

namespace System

/-- A task that ran to its `.ok` callback, from the body that made it. -/
theorem start_body {s t : System σ} {env : Env} {name : String} {task : Task} {tasks : List Task}
    {model : OgaModel} {state : σ} {body : Json}
    (taken : step vendor grain s (.start env) = some t) (idle : s.worker = .idle)
    (queues : s.engine.q = some ⟨name, task :: tasks⟩) (whole : task.req.stream = false)
    (holds : s.engine.Holds model state) (counted : env.output.length < 2 ^ 64)
    (running : t.fault = none) (last : t.log.getLast? = some (.callback task.id .ok body)) :
    Answers vendor env model task body := by
  have holds' : (s.engine.dequeue name tasks).Holds model state := ⟨holds.1, holds.2, holds.3⟩
  have hspec : Prog.wp (startTask vendor env task) (fun r w' => ∀ worker, r = .value worker →
      (vendor.encode model.path task.formattedOutput).length ≤ env.output.length ∧
        w'.log = s.log ++ wholeEvents vendor env task.id model
          (env.output.drop (vendor.encode model.path task.formattedOutput).length))
      { engine := s.engine.dequeue name tasks, log := s.log } := by
    rw [startTask, if_neg (by simp [whole]), Prog.wp_bind]
    apply (generateAll_answers task holds' counted).mono
    rintro (_ | what | fault) w' h
    · intro _ _
      obtain ⟨hlong, rfl⟩ := h rfl
      exact ⟨hlong, rfl⟩
    · intro _ hreturned
      cases hreturned
    · intro _ hreturned
      cases hreturned
  have hwork : t = ({ s with engine := s.engine.dequeue name tasks } : System σ).work task
      (startTask vendor env task) := by
    rw [step] at taken
    split at taken
    · cases taken
    · simp only [handler, workerStep, idle, queues, Option.some.injEq] at taken
      rw [idle]
      exact taken.symm
  rcases work_cases (s := { s with engine := s.engine.dequeue name tasks }) task hspec with
    ⟨worker, w, hvalue, ht⟩ | ⟨what, w, _, ht⟩ | ⟨fault, w, _, ht⟩
  · obtain ⟨hlong, hlog⟩ := hvalue worker rfl
    rw [hwork, ht] at last
    simp [hlog, wholeEvents, wholeReply] at last
    exact ⟨whole, hlong, last.symm⟩
  -- the last callback of a task that throws is a failure
  · rw [hwork, ht] at last
    simp [failedEvents, inferenceFailedReply, Status.ok, Status.failure] at last
  · rw [hwork, ht] at running
    cases running

/-- A step that makes an `.ok` callback for a queued request starts its task. -/
theorem Transition.answers {s t : System σ} {act : Act} (h : s.Tracked) (ledger : s.Ledger vendor)
    (taken : step vendor grain s act = some t) {id : Nat} {body : Json}
    (hqueued : .queued id ∈ s.log) (told : .callback id .ok body ∈ s.since t.log)
    (counted : act.outputLength < 2 ^ 64) :
    ∃ env task model, act = .start env ∧ s.engine.nextTask? = some task ∧ task.id = id ∧
      s.engine.ogaModel = some model ∧ Answers vendor env model task body := by
  obtain ⟨running, _, ht⟩ := step_transition h.aligned taken
  have hlt := ledger.lt_next hqueued rfl
  have hsince : ∀ {events : List Event}, s.since (s.log ++ events) = events := s.since_append _
  have hself : s.since s.log = [] := List.drop_length
  have hquiet : ∀ {uses : List Event} {id' : Nat}, s.engine.MayUse id' uses →
      .callback id .ok body ∉ uses := by
    intro uses id' used hmem
    obtain ⟨epoch, huses⟩ := used.uses
    rcases huses _ hmem with hused | hgenerated
    · cases hused
    · cases hgenerated
  cases ht with
  | @generated env name task tasks model state body' idle queues whole holds succeeds =>
    simp only [moves_log, hsince, List.mem_cons, List.not_mem_nil, reduceCtorEq, false_or,
      or_false, Event.callback.injEq, true_and] at told
    obtain ⟨rfl, rfl⟩ := told
    refine ⟨env, task, model, rfl, ?_, rfl, holds.ogaModel, ?_⟩
    · rw [OnnxEngine.nextTask?, queues]
      rfl
    · exact start_body taken idle queues whole holds counted running (by simp)
  -- a call answers by its own number
  | loaded | unloaded | models =>
    simp [hsince, loadedReply, unloadedReply, modelsReply] at told
    omega
  | loadFailed _ _ early =>
    rw [answer_log, hsince, List.mem_append] at told
    rcases told with htold | htold
    · rcases early with rfl | rfl
      · cases htold
      · simp [loadedReply] at htold
        omega
    · simp [loadFailedReply, Status.ok, Status.failure] at htold
  | startFailed _ _ _ used | turnFailed _ _ used =>
    rw [moves_log, hsince, List.mem_append] at told
    rcases told with htold | htold
    · exact absurd htold (hquiet used)
    · simp [failedEvents, inferenceFailedReply, Status.ok, Status.failure] at htold
  | generateFaulted _ _ _ _ _ used =>
    rw [crashes_log, hsince] at told
    exact absurd told (hquiet used)
  | _ =>
    simp [hsince, hself, refusal, modelStatusReply, chunkReply, streamUnloadedReply, stopReply,
      failedEvents, inferenceFailedReply, Status.ok, Status.failure, Status.chunk,
      Status.streamStop, Status.streamUnloaded] at told

theorem mem_alive_of_next {s : System σ} {task : Task} (next : s.engine.nextTask? = some task) :
    task ∈ s.alive := by
  obtain ⟨queue, hqueue, hhead⟩ := Option.bind_eq_some_iff.mp next
  apply List.mem_append_right
  rw [OnnxEngine.waiting, hqueue]
  exact List.mem_of_head? hhead

/-- A call that was answered with `.ok` was queued. -/
theorem queued_of_ok {startTime : Nat} {maxHistoryChat : Int} {es : List (System σ × Act)}
    {s t u : System σ} {jsonBody body : Json}
    (hrun : Run (step vendor grain) (fresh startTime maxHistoryChat) es t)
    (call : (s, .handleChatCompletion jsonBody) ∈ es)
    (taken : step vendor grain s (.handleChatCompletion jsonBody) = some u)
    (tracked : s.Tracked) (reply : (.ok, body) ∈ replies (about Event.subject? s.next t.log)) :
    u.log = s.log ++ [.queued s.next] := by
  obtain ⟨event, hlog, hcalled⟩ := run_called hrun call taken
  have honly : event ≠ .queued s.next → (.ok, body) ∈ replies [event] := by
    intro hevent
    rwa [hcalled.record hevent] at reply
  obtain ⟨hchat, _, _⟩ := (tracked.transition taken).chatCall tracked
  cases hchat with
  | threw hlog' =>
    have hevent : event = .threw s.next := by simpa [hlog] using hlog'
    subst hevent
    exact absurd (honly (by simp)) List.not_mem_nil
  | refused hlog' =>
    have hevent : event = refusal s.next := by simpa [hlog] using hlog'
    subst hevent
    have hreply := honly (by simp [refusal])
    simp [replies, refusal, Event.reply?, Status.ok, Status.failure] at hreply
  | queued _ hlog' => exact hlog'

/-- **An answer in one piece is the answer to its own prompt**, made from what one `Generate` call
gave for it, in every run. -/
theorem run_answers {startTime : Nat} {maxHistoryChat : Int} {es : List (System σ × Act)}
    {s t : System σ} {jsonBody body : Json}
    (hrun : Run (step vendor grain) (fresh startTime maxHistoryChat) es t)
    (counted : EveryStep (fun _ act => act.outputLength < 2 ^ 64) es)
    (call : (s, .handleChatCompletion jsonBody) ∈ es)
    (reply : (.ok, body) ∈ replies (about Event.subject? s.next t.log)) :
    ∃ task v env model, formTask s.engine.config s.next jsonBody = .ok task ∧
      (v, .start env) ∈ es ∧ v.engine.nextTask? = some task ∧
      v.engine.ogaModel = some model ∧ Answers vendor env model task body := by
  obtain ⟨_, u, hbefore, taken⟩ := hrun.reached call
  have hlog := queued_of_ok hrun call taken (run_ledger hbefore).1 reply
  induction hrun with
  | nil => exact absurd call List.not_mem_nil
  | @snoc es v t act before last ih =>
    obtain ⟨hes, hact⟩ := everyStep_snoc.mp counted
    obtain ⟨htracked, hledger⟩ := run_ledger before
    rcases List.mem_append.mp call with hold | hnew
    · obtain ⟨event, hevent, hcalled⟩ := run_called before hold taken
      have hqueued : .queued s.next ∈ v.log :=
        hcalled.queued (by simpa [hevent] using hlog)
      obtain ⟨events, hgrows⟩ := (htracked.transition last).view.log_grows
      rw [← hgrows, about_append, replies_append, List.mem_append] at reply
      rcases reply with htold | htold
      · obtain ⟨task, w, env, model, hforms, hstart, hrest⟩ := ih hes hold htold
        exact ⟨task, w, env, model, hforms, List.mem_append_left _ hstart, hrest⟩
      -- told in this step, which therefore starts the task
      · obtain ⟨e, he, hreply⟩ := List.mem_filterMap.mp htold
        obtain ⟨hmem, hsubject⟩ := mem_about.mp he
        have hcallback : e = .callback s.next .ok body := by
          cases e <;> cases hreply
          cases hsubject
          rfl
        have htold' : .callback s.next .ok body ∈ v.since t.log := by
          rw [← hgrows, since_append]
          exact hcallback ▸ hmem
        obtain ⟨env, task, model, rfl, hnext, hid, hmodel, hanswers⟩ :=
          Transition.answers htracked hledger last hqueued htold' hact
        exact ⟨task, v, env, model, hcalled.task task (mem_alive_of_next hnext) hid,
          List.mem_append_right _ List.mem_cons_self, hnext, hmodel, hanswers⟩
    · cases List.mem_singleton.mp hnew
      cases last.symm.trans taken
      -- at the call itself nothing has been answered
      rw [hlog, about_append, hledger.unborn s.next (Nat.le_refl _)] at reply
      simp [about, Event.subject?, replies, Event.reply?] at reply

/-- Two answers in one piece, with a load of another model in between. -/
def twoAnswers : List Act :=
  [.loadModel {} (loadRequest "m"), .handleChatCompletion (chatRequest false "x"),
    .handleChatCompletion (chatRequest false "yy"), .start { output := List.replicate 40 104 },
    .loadModel {} (loadRequest "n"), .start { output := List.replicate 50 105 }]

theorem answers_of_twoAnswers : ∃ (s t : System (List Nat)) (body : Json),
    execute (step utf8Vendor .fine) (fresh 0 0) twoAnswers = some t ∧
    (.ok, body) ∈ replies (about Event.subject? s.next t.log) ∧
    ∃ task v env model,
      formTask s.engine.config s.next (chatRequest false "yy") = .ok task ∧
        (v, .start env) ∈ trace (step utf8Vendor .fine) (fresh 0 0) twoAnswers ∧
        v.engine.nextTask? = some task ∧ v.engine.ogaModel = some model ∧
        Answers utf8Vendor env model task body := by
  have hruns : (execute (step utf8Vendor .fine) (fresh 0 0) twoAnswers).any
      (fun t => (replies (about Event.subject? 2 t.log)).any fun reply => reply.1 = .ok) =
        true := by decide
  obtain ⟨t, hexecute, hrun, htold⟩ := exists_run_of_execute hruns
  obtain ⟨⟨status, body⟩, hreply, hok⟩ := List.any_eq_true.mp htold
  cases of_decide_eq_true hok
  have hcall : ∃ s, (s, .handleChatCompletion (chatRequest false "yy")) ∈
      trace (step utf8Vendor .fine) (fresh 0 0) twoAnswers ∧ s.next = 2 :=
    ⟨_, List.Mem.tail _ (List.Mem.tail _ (List.Mem.head _)), rfl⟩
  obtain ⟨s, hcall, hnext⟩ := hcall
  rw [← hnext] at hreply
  have hcounted : ∀ e ∈ trace (step utf8Vendor .fine) (fresh 0 0) twoAnswers,
      e.2.outputLength < 2 ^ 64 := by decide
  exact ⟨s, t, body, hexecute, hreply, run_answers hrun hcounted hcall hreply⟩

end System

end CortexOnnx
