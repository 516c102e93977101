import CortexOnnx.LoadReport
import CortexOnnx.ServiceOrder
import CortexOnnx.Server.Handlers

/-!
# What becomes of the handlers

`Asked` is what is known of the request behind a handler, from the call on.  It bounds what its
queue can hold, it keeps the content provider from an ill-typed reply, and it brings every handler
to an end except those that called `HandleEmbedding`.
-/

namespace CortexOnnx

variable {σ : Type} {vendor : Vendor σ}

/-- How the record of a request begins: queued, with the endings of its kind; refused; or without
a word. -/
inductive Origin (vendor : Vendor σ) (log : List Event) (id : Nat) (stream : Bool) : Prop
  | queued (admitted : .queued id ∈ log)
      (endings : ∀ reply ∈ replies (about Event.subject? id log), reply.1.terminal = true →
        Ending vendor stream reply)
  | refused (record : about Event.subject? id log = [refusal id])
  | silent (record : about Event.subject? id log = [])

/-- What is known of a request after its call. -/
structure Asked (vendor : Vendor σ) (s : System σ) (id : Nat) (stream : Bool) : Prop where
  earlier : id < s.next
  kind : ∀ task ∈ s.alive, task.id = id → task.req.stream = stream
  mute : stream = false → texts (about Event.subject? id s.log) = []
  origin : Origin vendor s.log id stream

/-- Without an admission on the record there is no task. -/
theorem not_isAlive_of_record {s : System σ} {id : Nat} (ledger : s.Ledger vendor)
    (h : .queued id ∉ about Event.subject? id s.log) : ¬s.IsAlive id := by
  rintro ⟨task, htask, hid⟩
  exact h (mem_about.mpr ⟨hid ▸ ledger.admitted task htask, rfl⟩)

theorem Asked.step {s t : System σ} {id : Nat} {stream : Bool} (h : Asked vendor s id stream)
    (ledger : s.Ledger vendor) (streaming : s.Streaming) (view : System.View vendor s t) :
    Asked vendor t id stream := by
  have hearlier := h.earlier
  constructor
  · exact Nat.lt_of_lt_of_le hearlier view.next_le
  · intro task htask hid
    rcases view.mem_alive htask with hold | hnew
    · exact h.kind task hold hid
    · omega
  · intro hwhole
    rw [view.texts_kept streaming hearlier]
    · exact h.mute hwhole
    · intro task htask hid
      rw [h.kind task htask hid, hwhole]
  · rcases h.origin with ⟨hadmitted, hendings⟩ | hrecord | hrecord
    · exact .queued (view.log_grows.subset hadmitted) (view.endings_kept hearlier h.kind hendings)
    -- a closed record stays as it is
    · apply Origin.refused
      rw [view.record_kept hearlier (not_isAlive_of_record ledger (by simp [hrecord, refusal]))]
      exact hrecord
    · apply Origin.silent
      rw [view.record_kept hearlier (not_isAlive_of_record ledger (by simp [hrecord]))]
      exact hrecord

/-- A request that is not a stream is told at most one thing, after which its task is gone. -/
theorem Asked.answeredOnce {s : System σ} {id : Nat} (h : Asked vendor s id false)
    (ledger : s.Ledger vendor) : replies (about Event.subject? id s.log) = [] ∨
      ∃ reply, replies (about Event.subject? id s.log) = [reply] ∧ reply.1.terminal = true ∧
        ¬s.IsAlive id := by
  rcases h.origin with ⟨hadmitted, _⟩ | hrecord | hrecord
  · obtain ⟨rest, habout, _, last, ⟨chunks, hreplies, hchunks⟩, hshape, hlast, _⟩ :=
      ledger.replied id hadmitted
    have hmute := h.mute rfl
    rw [habout] at hmute
    have hsilent : texts rest = [] := hmute
    -- no text, no chunk
    rw [hsilent] at hchunks
    cases hchunks
    have htold : replies (about Event.subject? id s.log) = last := by rw [habout]; exact hreplies
    rw [htold]
    rcases hshape with hnone | ⟨status, body, hterminal, hone⟩
    · exact Or.inl hnone
    · refine Or.inr ⟨(status, body), hone, hterminal, ?_⟩
      intro halive
      rw [hlast halive] at hone
      cases hone
  · have hone : replies (about Event.subject? id s.log) = [(.failure k409Conflict, messageBody
        "Model has not been loaded, please load model into cortex.onnx")] := by
      rw [hrecord]
      rfl
    refine Or.inr ⟨_, hone, rfl, ?_⟩
    exact not_isAlive_of_record ledger (by simp [hrecord, refusal])
  · exact Or.inl (by rw [hrecord]; rfl)

/-- Every reply to a stream has a data field that can be read as a string. -/
theorem Asked.readable {s : System σ} {id : Nat} (h : Asked vendor s id true)
    (ledger : s.Ledger vendor) :
    ∀ reply ∈ replies (about Event.subject? id s.log), ∃ str, dataField reply.2 = .ok str := by
  intro reply hreply
  rcases h.origin with ⟨hadmitted, hendings⟩ | hrecord | hrecord
  · obtain ⟨rest, habout, _, last, ⟨chunks, hreplies, hchunks⟩, hshape, _⟩ :=
      ledger.replied id hadmitted
    have htold : replies (about Event.subject? id s.log) = chunks ++ last := by
      rw [habout]
      exact hreplies
    have hending := hendings reply hreply
    rw [htold, List.mem_append] at hreply
    rcases hreply with hchunk | hend
    · exact chunks_data hchunks reply hchunk
    · rcases hshape with rfl | ⟨status, body, hterminal, rfl⟩
      · exact absurd hend List.not_mem_nil
      · rw [List.mem_singleton.mp hend] at hending ⊢
        exact ending_data (hending hterminal)
  -- a refusal has no data field
  · rw [hrecord] at hreply
    cases List.mem_singleton.mp hreply
    exact ⟨"", rfl⟩
  · rw [hrecord] at hreply
    exact absurd hreply List.not_mem_nil

/-- Once a stream was told an end, that is the last it was told and its task is gone. -/
theorem Asked.endsOnce {s : System σ} {id : Nat} {stream : Bool} (h : Asked vendor s id stream)
    (ledger : s.Ledger vendor) {reply : Reply}
    (hreply : reply ∈ replies (about Event.subject? id s.log))
    (terminal : reply.1.terminal = true) :
    EndsOnce (replies (about Event.subject? id s.log)) ∧ ¬s.IsAlive id := by
  rcases h.origin with ⟨hadmitted, _⟩ | hrecord | hrecord
  · obtain ⟨rest, habout, _, last, ⟨chunks, hreplies, hchunks⟩, hshape, hlast, _⟩ :=
      ledger.replied id hadmitted
    have htold : replies (about Event.subject? id s.log) = chunks ++ last := by
      rw [habout]
      exact hreplies
    have hgoes := chunks_status hchunks
    rw [htold] at hreply ⊢
    rcases hshape with rfl | ⟨status, body, hterminal, rfl⟩
    -- a chunk is not an end
    · rw [List.append_nil] at hreply
      rw [hgoes reply hreply] at terminal
      cases terminal
    · refine ⟨⟨chunks, _, rfl, hterminal, ?_⟩, ?_⟩
      · intro item hitem
        rw [hgoes item hitem]
        rfl
      · intro halive
        cases hlast halive
  · refine ⟨⟨[], _, by rw [hrecord]; rfl, rfl, fun _ h => absurd h List.not_mem_nil⟩, ?_⟩
    exact not_isAlive_of_record ledger (by simp [hrecord, refusal])
  · rw [hrecord] at hreply
    exact absurd hreply List.not_mem_nil

/-- Some replies to a request were taken and the others are queued. -/
def Handler.Attended (vendor : Vendor σ) (s : System σ) : Handler → Prop
  | .popping id q => Asked vendor s id false ∧ replies (about Event.subject? id s.log) = q.q
  | .providing id provider => Asked vendor s id true ∧ ∃ taken, provider.Took taken ∧
      replies (about Event.subject? id s.log) = taken ++ provider.q.q
  | .failed | .responded _ => True

/-- What a step adds to the replies of a request. -/
theorem replies_since {s t : System σ} (view : System.View vendor s t) (id : Nat) :
    replies (about Event.subject? id t.log) = replies (about Event.subject? id s.log) ++
      replies (about Event.subject? id (s.since t.log)) := by
  obtain ⟨events, hlog⟩ := view.log_grows
  rw [← hlog, System.since_append, about_append, replies_append]

theorem Handler.Attended.deliver {s t : System σ} {handler : Handler}
    (h : handler.Attended vendor s) (ledger : s.Ledger vendor) (streaming : s.Streaming)
    (view : System.View vendor s t) : (handler.deliver (s.since t.log)).Attended vendor t := by
  cases handler with
  | failed | responded => trivial
  | popping id q =>
    obtain ⟨hasked, hqueued⟩ := h
    refine ⟨hasked.step ledger streaming view, ?_⟩
    show _ = (q.pushAll _).q
    rw [SyncQueue.pushAll_q, replies_since view, hqueued]
  | providing id provider =>
    obtain ⟨hasked, taken, htook, hqueued⟩ := h
    refine ⟨hasked.step ledger streaming view, taken, htook.queue _, ?_⟩
    show _ = taken ++ (provider.q.pushAll _).q
    rw [SyncQueue.pushAll_q, replies_since view, hqueued, List.append_assoc]

theorem Handler.Attended.proceed {s : System σ} {handler handler' : Handler} {writable : Bool}
    (h : handler.Attended vendor s) (steps : handler.proceed writable = some handler') :
    handler'.Attended vendor s := by
  cases handler with
  | failed | responded => cases steps
  | popping id q =>
    obtain ⟨popped, _, rfl⟩ := Option.map_eq_some_iff.mp steps
    trivial
  | providing id provider =>
    obtain ⟨provider', hprovider, rfl⟩ := Option.map_eq_some_iff.mp steps
    obtain ⟨hasked, taken, htook, hqueued⟩ := h
    obtain ⟨popped, htook', hq⟩ := htook.step hprovider
    exact ⟨hasked, taken ++ popped, htook', by rw [hqueued, hq, List.append_assoc]⟩

theorem stream_of_fromJson {jsonBody : Json} {req : ChatCompletionRequest} {isStream : Bool}
    (reads : ChatCompletionRequest.fromJson jsonBody = .ok req)
    (stream : Route.completions.isStream jsonBody = .ok isStream) :
    req.stream = isStream := by
  obtain ⟨value, hget, hbool⟩ := bind_eq_ok.mp stream
  rw [ChatCompletionRequest.fromJson, hget, ok_bind, hbool, ok_bind] at reads
  -- whatever the other fields are, the last line returns the flag that was read first
  repeat obtain ⟨_, _, reads⟩ := bind_eq_ok.mp reads
  cases reads
  rfl

/-- The handler and the engine read `stream` alike. -/
theorem stream_of_forms {config : Config} {id : Nat} {jsonBody : Json} {task : Task}
    {isStream : Bool} (forms : formTask config id jsonBody = .ok task)
    (stream : Route.completions.isStream jsonBody = .ok isStream) :
    task.req.stream = isStream := by
  rw [formTask] at forms
  obtain ⟨req, hreads, forms⟩ := bind_eq_ok.mp forms
  repeat obtain ⟨_, _, forms⟩ := bind_eq_ok.mp forms
  cases forms
  exact stream_of_fromJson hreads stream

/-- Every handler attends to the request it has just made. -/
theorem attended_afterCall {s t : System σ} {route : Route} {reqBody : Json} {env : Env}
    {isStream : Bool} (h : s.Tracked) (ledger : s.Ledger vendor)
    (reads : route.isStream reqBody = .ok isStream)
    (ht : System.Transition vendor s (route.call env reqBody) t) :
    (Handler.afterCall route isStream s.next (s.since t.log)).Attended vendor t := by
  have hunborn := ledger.unborn s.next (Nat.le_refl _)
  cases route with
  | loadModel | unloadModel | getModelStatus | getRunningModels =>
    unfold Handler.afterCall
    dsimp only
    split <;> trivial
  | embeddings =>
    cases ht
    have hsince : s.since (s.answer s.engine []).log = [] := by
      rw [System.answer_log, System.since_append]
    have hrecord : about Event.subject? s.next (s.answer s.engine []).log = [] := by
      rw [System.answer_log, List.append_nil]
      exact hunborn
    rw [hsince]
    refine ⟨⟨Nat.lt_succ_self _, ?_, fun _ => ?_, .silent hrecord⟩, ?_⟩
    rotate_left
    · rw [hrecord]
      rfl
    · rw [hrecord]
      rfl
    intro task htask hid
    have hlt := ledger.numbered task htask
    omega
  | completions =>
    obtain ⟨hchat, hnext, hworker⟩ := ht.chatCall h
    obtain ⟨event, hlog, hcalled⟩ := hchat.called ledger hnext hworker
    have hsince : s.since t.log = [event] := by rw [hlog, System.since_append]
    have hone : about Event.subject? s.next t.log = about Event.subject? s.next [event] := by
      rw [hlog, about_append, hunborn, List.nil_append]
    -- a call that does not throw goes on with what it has been told
    have hattended : event = .queued s.next ∨ event = refusal s.next →
        texts (about Event.subject? s.next t.log) = [] → Origin vendor t.log s.next isStream →
        (Handler.afterCall .completions isStream s.next (s.since t.log)).Attended vendor t := by
      intro hevent hsilent horigin
      have hasked : Asked vendor t s.next isStream := by
        refine ⟨hcalled.earlier, ?_, fun _ => hsilent, horigin⟩
        intro task htask hid
        exact stream_of_forms (hcalled.task task htask hid) reads
      have hqueued : replies (about Event.subject? s.next t.log) = (SyncQueue.pushAll { q := [] }
          (replies (about Event.subject? s.next [event]))).q := by
        rw [SyncQueue.pushAll_q, hone]
        rfl
      rw [hsince, Handler.afterCall]
      split
      · rename_i hthrew
        rcases hevent with rfl | rfl <;> cases hthrew
      · cases isStream with
        | true => exact ⟨hasked, [], ContentProvider.registered_took _, hqueued⟩
        | false => exact ⟨hasked, hqueued⟩
    cases hchat with
    | threw log =>
      have hevent : event = .threw s.next := by simpa [hlog] using log
      rw [hsince, hevent]
      trivial
    | refused log =>
      have hevent : event = refusal s.next := by simpa [hlog] using log
      have hrecord := hcalled.record (by rw [hevent]; simp [refusal])
      rw [hevent] at hrecord
      exact hattended (Or.inr hevent) (by rw [hrecord]; rfl) (.refused hrecord)
    | queued forms log =>
      have hevent : event = .queued s.next := by simpa [hlog] using log
      have hrecord : about Event.subject? s.next t.log = [.queued s.next] := by
        rw [hone, hevent]
        simp [about, Event.subject?]
      refine hattended (Or.inl hevent) (by rw [hrecord]; rfl)
        (.queued (hcalled.queued hevent) ?_)
      intro reply hreply
      rw [hrecord] at hreply
      exact absurd hreply List.not_mem_nil

namespace Server

variable (vendor) in
/-- The invariant of the server, with the embeddings route. -/
structure Attends (s : Server σ) : Prop where
  tracked : s.engine.Tracked
  ledger : s.engine.Ledger vendor
  streaming : s.engine.Streaming
  attended : ∀ handler ∈ s.handlers, handler.Attended vendor s.engine

theorem fresh_attends (startTime : Nat) (maxHistoryChat : Int) :
    (fresh startTime maxHistoryChat : Server σ).Attends vendor where
  tracked := System.fresh_tracked startTime maxHistoryChat
  ledger := System.fresh_ledger startTime maxHistoryChat
  streaming := fun _ h => by cases h
  attended := fun _ h => absurd h List.not_mem_nil

/-- A step of the server is a call with its handler, a step of the worker, or a step of one
handler. -/
inductive Move (vendor : Vendor σ) (s : Server σ) : Act → Server σ → Prop
  | unread {req : HttpRequest} {env : Env} {what : String} (opening : req.opening = .error what) :
      Move vendor s (.request req env) { s with handlers := s.handlers ++ [.failed] }
  | called {req : HttpRequest} {env : Env} {reqBody : Json} {isStream : Bool} {engine : System σ}
      (opening : req.opening = .ok (reqBody, isStream))
      (taken : System.step vendor .fine s.engine (req.route.call env reqBody) = some engine) :
      Move vendor s (.request req env)
        { engine
          handlers := s.handlers.map (Handler.deliver (s.engine.since engine.log)) ++
            [Handler.afterCall req.route isStream s.engine.next (s.engine.since engine.log)] }
  | worked {act : CortexOnnx.Act} {engine : System σ}
      (taken : System.step vendor .fine s.engine act = some engine) :
      Move vendor s (.work act)
        { engine, handlers := s.handlers.map (Handler.deliver (s.engine.since engine.log)) }
  | proceeded {index : Nat} {writable : Bool} {handler handler' : Handler}
      (at_ : s.handlers[index]? = some handler) (goes : handler.proceed writable = some handler') :
      Move vendor s (.proceed index writable) { s with handlers := s.handlers.set index handler' }

theorem step_move {s t : Server σ} {act : Act} (taken : step vendor s act = some t) :
    s.engine.fault = none ∧ Move vendor s act t := by
  cases hfault : s.engine.fault with
  | some fault => simp [Server.step, hfault] at taken
  | none =>
    refine ⟨rfl, ?_⟩
    cases act with
    | request req env =>
      cases hopening : req.opening with
      | error what =>
        simp [Server.step, hfault, hopening] at taken
        subst taken
        exact .unread hopening
      | ok opened =>
        simp [Server.step, hfault, hopening] at taken
        obtain ⟨engine, hcall, rfl⟩ := taken
        exact .called hopening hcall
    | work act =>
      cases hhandler : System.handler vendor s.engine.next act with
      | some body => simp [Server.step, hfault, hhandler] at taken
      | none =>
        simp [Server.step, hfault, hhandler] at taken
        obtain ⟨engine, hwork, rfl⟩ := taken
        exact .worked hwork
    | proceed index writable =>
      rw [Server.step, if_neg (by simp [hfault])] at taken
      obtain ⟨handler', hgoes, rfl⟩ := Option.map_eq_some_iff.mp taken
      obtain ⟨handler, hat, hproceeds⟩ := Option.bind_eq_some_iff.mp hgoes
      exact .proceeded hat hproceeds

/-- A step of the engine, with its callbacks delivered. -/
theorem Attends.engineStep {s : Server σ} {act : CortexOnnx.Act} {engine : System σ}
    (h : s.Attends vendor) (running : s.engine.fault = none)
    (taken : System.step vendor .fine s.engine act = some engine) (handlers : List Handler)
    (added : ∀ handler ∈ handlers, handler.Attended vendor engine) :
    ({ engine, handlers := s.handlers.map (Handler.deliver (s.engine.since engine.log)) ++
      handlers } : Server σ).Attends vendor := by
  have ht := h.tracked.transition taken
  refine ⟨ht.tracked h.tracked, ht.view.ledger h.ledger running, ht.streaming h.streaming, ?_⟩
  intro handler hhandler
  rcases List.mem_append.mp hhandler with hold | hnew
  · obtain ⟨before, hbefore, rfl⟩ := List.mem_map.mp hold
    exact (h.attended before hbefore).deliver h.ledger h.streaming ht.view
  · exact added handler hnew

theorem Attends.step {s t : Server σ} {act : Act} (h : s.Attends vendor)
    (taken : Server.step vendor s act = some t) : t.Attends vendor := by
  obtain ⟨running, hmove⟩ := step_move taken
  cases hmove with
  | unread opening =>
    refine ⟨h.tracked, h.ledger, h.streaming, ?_⟩
    intro handler hhandler
    rcases List.mem_append.mp hhandler with hold | hnew
    · exact h.attended handler hold
    · rw [List.mem_singleton.mp hnew]
      trivial
  | called opening called =>
    apply h.engineStep running called [_]
    intro handler hhandler
    rw [List.mem_singleton.mp hhandler]
    have hreads := (HttpRequest.opening_eq_ok.mp opening).2
    exact attended_afterCall h.tracked h.ledger hreads (h.tracked.transition called)
  | worked worked =>
    have hstep := h.engineStep running worked []
      (fun _ hmem => absurd hmem List.not_mem_nil)
    rwa [List.append_nil] at hstep
  | proceeded at_ goes =>
    refine ⟨h.tracked, h.ledger, h.streaming, ?_⟩
    intro other hother
    rcases List.mem_or_eq_of_mem_set hother with hold | rfl
    · exact h.attended other hold
    · exact (h.attended _ (List.mem_of_getElem? at_)).proceed goes

theorem run_attends {startTime : Nat} {maxHistoryChat : Int} {es : List (Server σ × Act)}
    {t : Server σ} (hrun : Run (step vendor) (fresh startTime maxHistoryChat) es t) :
    t.Attends vendor :=
  hrun.invariant (fresh_attends startTime maxHistoryChat) fun _ _ _ hs htaken => hs.step htaken

/-- **One pop is enough.**  In every reachable state the queue of a handler that answers in one
piece holds all its request was told, which is nothing or one last reply. -/
theorem popping_atMostOne {startTime : Nat} {maxHistoryChat : Int} {es : List (Server σ × Act)}
    {t : Server σ} (hrun : Run (step vendor) (fresh startTime maxHistoryChat) es t) {id : Nat}
    {q : SyncQueue} (hhandler : .popping id q ∈ t.handlers) :
    q.q = replies (about Event.subject? id t.engine.log) ∧
      (q.q = [] ∨ ∃ reply, q.q = [reply] ∧ reply.1.terminal = true ∧ ¬t.engine.IsAlive id) := by
  have hattends := run_attends hrun
  obtain ⟨hasked, hqueued⟩ := hattends.attended _ hhandler
  rw [← hqueued]
  exact ⟨rfl, hasked.answeredOnce hattends.ledger⟩

theorem popping_of_waiting : ∃ es t id q,
    Run (step utf8Vendor) (fresh 0 0) es t ∧ .popping id q ∈ t.handlers ∧
      q.q = replies (about Event.subject? id t.engine.log) ∧
      (q.q = [] ∨ ∃ reply, q.q = [reply] ∧ reply.1.terminal = true ∧ ¬t.engine.IsAlive id) := by
  have hruns : (execute (step utf8Vendor) (fresh 0 0)
      [.request ⟨.loadModel, .ok (loadRequest "m")⟩ {},
        .request ⟨.completions, .ok (chatRequest false "x")⟩ {},
        .work (.start { output := List.replicate 40 104 })]).any
      (fun t => t.handlers.any fun handler => handler matches .popping _ _) = true := by decide
  obtain ⟨t, _, hrun, hany⟩ := exists_run_of_execute hruns
  obtain ⟨handler, hhandler, hpopping⟩ := List.any_eq_true.mp hany
  cases handler with
  | failed | responded | providing => cases hpopping
  | popping id q => exact ⟨_, t, id, q, hrun, hhandler, popping_atMostOne hrun hhandler⟩

/-- What a provider of a reachable state has come to. -/
structure Provided (log : List Event) (id : Nat) (provider : ContentProvider) : Prop where
  ordered : provider.sink.offered <+:
    (replies (about Event.subject? id log)).map replyData
  calm : provider.point ≠ .threw
  complete : provider.point = .returned →
    provider.sink.offered = (replies (about Event.subject? id log)).map replyData ∧
      provider.sink.dones = 1 ∧ provider.q.q = []

theorem Attends.provided {s : Server σ} (h : s.Attends vendor) {id : Nat}
    {provider : ContentProvider} (hhandler : .providing id provider ∈ s.handlers) :
    Provided s.engine.log id provider := by
  obtain ⟨hasked, taken, htook, hqueued⟩ := h.attended _ hhandler
  have hcalm := htook.calm fun item hitem =>
    hasked.readable h.ledger item (by rw [hqueued]; exact List.mem_append_left _ hitem)
  constructor
  case ordered =>
    rw [hqueued, List.map_append]
    exact (htook.offered_prefix hcalm).trans (List.prefix_append _ _)
  case calm => exact hcalm
  case complete =>
    intro hreturned
    obtain ⟨hoffered, before, item, hlast, hterminal⟩ := htook.of_returned hreturned
    have hsplit : replies (about Event.subject? id s.engine.log) =
        before ++ item :: provider.q.q := by
      rw [hqueued, hlast, List.append_assoc]
      rfl
    have hends := (hasked.endsOnce h.ledger (by rw [hsplit]; simp) hterminal).1
    have hrest := hends.split hsplit hterminal
    rw [hrest, List.append_nil] at hqueued
    rw [hqueued]
    exact ⟨hoffered, (htook.dones hcalm).2.mpr hreturned, hrest⟩

/-- **No content provider throws**, in any run.  It offers its sink the data of the replies in their
order, and once it returns, with one `done`, all of them. -/
theorem run_provided {startTime : Nat} {maxHistoryChat : Int} {es : List (Server σ × Act)}
    {t : Server σ} (hrun : Run (step vendor) (fresh startTime maxHistoryChat) es t) {id : Nat}
    {provider : ContentProvider} (hhandler : .providing id provider ∈ t.handlers) :
    Provided t.engine.log id provider :=
  (run_attends hrun).provided hhandler

theorem provided_of_busyServer : ∃ es t id provider,
    Run (step utf8Vendor) (fresh 0 0) es t ∧ .providing id provider ∈ t.handlers ∧
      Provided t.engine.log id provider := by
  have hruns : (execute (step utf8Vendor) (fresh 0 0) busyServer).any
      (fun t => t.handlers.any Handler.isUncalled) = true := by decide
  obtain ⟨t, _, hrun, hany⟩ := exists_run_of_execute hruns
  obtain ⟨handler, hhandler, huncalled⟩ := List.any_eq_true.mp hany
  cases handler with
  | failed | responded | popping => cases huncalled
  | providing id provider => exact ⟨_, t, id, provider, hrun, hhandler, run_provided hrun hhandler⟩

/-! ## The load route -/

/-- What the handler of `/loadmodel` comes to.  It fails when the parser throws on the body or the
configuration cannot be read from it, and then only. -/
inductive LoadResponse (engine : OnnxEngine σ) (parsed : Except String Json) : Handler → Prop
  | failed (reads : (parsed >>= readConfig).isOk = false) : LoadResponse engine parsed .failed
  | loaded {resp : Response} {reqBody : Json} {config : Config} (body : parsed = .ok reqBody)
      (reads : readConfig reqBody = .ok config) (status : resp.status = k200OK)
      (runs : engine.RunsAs config reqBody) : LoadResponse engine parsed (.responded (some resp))
  | unloaded {resp : Response} {reqBody : Json} {config : Config} (body : parsed = .ok reqBody)
      (reads : readConfig reqBody = .ok config) (status : resp.status = k500InternalServerError)
      (unloaded : ¬engine.LoadedAs reqBody) : LoadResponse engine parsed (.responded (some resp))

/-- The reply that comes last is the response. -/
theorem afterCall_loadModel {isStream : Bool} {id : Nat} {events : List Event} (reply : Reply)
    (calm : ∀ id', .threw id' ∉ events)
    (last : (replies (about Event.subject? id events)).getLast? = some reply) :
    Handler.afterCall .loadModel isStream id events =
      .responded (some (Response.ofReply reply)) := by
  unfold Handler.afterCall
  dsimp only
  split
  · rename_i hthrew
    obtain ⟨event, hevent, hmatches⟩ := List.any_eq_true.mp hthrew
    cases event <;> cases hmatches
    exact absurd hevent (calm _)
  · rw [last]
    rfl

/-- **The load route is truthful.**  The callback that comes last decides, so the response has
status 200 only when the engine runs the requested model, also where it was told of success first
and of failure then. -/
theorem loadModel_responds {startTime : Nat} {maxHistoryChat : Int} {es : List (Server σ × Act)}
    {s t : Server σ} {parsed : Except String Json} {env : Env}
    (hrun : Run (step vendor) (fresh startTime maxHistoryChat) es s)
    (taken : step vendor s (.request ⟨.loadModel, parsed⟩ env) = some t) :
    ∃ handler, t.handlers.getLast? = some handler ∧
      LoadResponse t.engine.engine parsed handler := by
  have hattends := run_attends hrun
  obtain ⟨_, hmove⟩ := step_move taken
  cases hmove with
  | @unread _ _ what opening =>
    refine ⟨_, List.getLast?_concat, .failed ?_⟩
    -- only the parser throws before the call
    cases parsed with
    | error => rfl
    | ok reqBody => cases opening
  | @called _ _ reqBody isStream engine opening called =>
    refine ⟨_, List.getLast?_concat, ?_⟩
    obtain ⟨hparsed, hstream⟩ := HttpRequest.opening_eq_ok.mp opening
    have hbody : parsed = .ok reqBody := hparsed
    have ht := hattends.tracked.transition called
    cases ht with
    | loadThrew reads =>
      rw [System.answer_log, System.since_append]
      refine .failed ?_
      rw [hbody, ok_bind, reads]
      rfl
    | loadFailed reads throws told =>
      rw [System.answer_log, System.since_append, afterCall_loadModel
        (.failure k500InternalServerError, messageBody "Failed to load model")]
      · exact .unloaded hbody reads rfl (OnnxEngine.not_loadedAs_dropHandles _ _)
      · rcases told with rfl | rfl <;> simp [loadedReply, loadFailedReply]
      · rcases told with rfl | rfl <;>
          simp [about, replies, Event.subject?, Event.reply?, loadedReply, loadFailedReply]
    | loaded reads succeeds names =>
      rw [System.answer_log, System.since_append,
        afterCall_loadModel (.ok, messageBody "Model loaded successfully")]
      · exact .loaded hbody reads rfl (OnnxEngine.runsAs_markLoaded _ _ _ names rfl)
      · simp [loadedReply]
      · simp [about, replies, Event.subject?, Event.reply?, loadedReply]

/-- The engine calls back with success and then with failure. -/
theorem loadModel_responds_unnameable : ∃ s t handler,
    execute (step utf8Vendor) (fresh 0 0) busyServer = some s ∧
      step utf8Vendor s (.request ⟨.loadModel, .ok containerRequest⟩ {}) = some t ∧
      t.handlers.getLast? = some handler ∧
      LoadResponse t.engine.engine (.ok containerRequest) handler := by
  have hruns : (execute (step utf8Vendor) (fresh 0 0) busyServer).any (fun s =>
      (step utf8Vendor s (.request ⟨.loadModel, .ok containerRequest⟩ {})).isSome) = true := by
    decide
  obtain ⟨s, hexecute, hrun, htaken⟩ := exists_run_of_execute hruns
  obtain ⟨t, htaken⟩ := Option.isSome_iff_exists.mp htaken
  obtain ⟨handler, hlast, hresponse⟩ := loadModel_responds hrun htaken
  exact ⟨s, t, handler, hexecute, htaken, hlast, hresponse⟩

end Server

end CortexOnnx
