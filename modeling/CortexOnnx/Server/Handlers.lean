import CortexOnnx.Server.SyncQueue

/-!
# The handlers of the server

The HTTP server around the engine.  A handler makes its engine call and then, for the calls that
answer from the worker, pops its queue.  Any number of handlers run at once, and their steps fall
between any two steps of the engine's worker.
-/

namespace CortexOnnx

variable {σ : Type} {vendor : Vendor σ}

/-- The routes whose handlers call the engine. -/
inductive Route where
  | loadModel
  | unloadModel
  | completions
  | embeddings
  | getModelStatus
  | getRunningModels
  deriving DecidableEq

namespace Route

/-- The engine call of the handler. -/
def call (env : Env) (reqBody : Json) : Route → Act
  | loadModel => .loadModel env reqBody
  | unloadModel => .unloadModel reqBody
  | completions => .handleChatCompletion reqBody
  | embeddings => .handleEmbedding reqBody
  | getModelStatus => .getModelStatus reqBody
  | getRunningModels => .getModels reqBody

/-- `is_stream`, which `handle_completions` reads before it makes its call. -/
def isStream (reqBody : Json) : Route → Except String Bool
  | completions => do (← reqBody.get "stream" (.bool false)).asBool
  | _ => .ok false

end Route

/-- A request with what `r.parse(req.body, *req_body)` makes of its body: the value that it leaves,
also where it returns false, or its exception, as for a body that is nested too deeply. -/
structure HttpRequest where
  route : Route
  parsed : Except String Json

namespace HttpRequest

/-- What comes before the engine call, in every handler. -/
def opening (req : HttpRequest) : Except String (Json × Bool) := do
  let reqBody ← req.parsed
  return (reqBody, ← req.route.isStream reqBody)

/-- The requests that reach `HandleEmbedding`. -/
def callsEmbedding (req : HttpRequest) : Bool := req.route = .embeddings && req.parsed.isOk

theorem opening_eq_ok {req : HttpRequest} {reqBody : Json} {isStream : Bool} :
    req.opening = .ok (reqBody, isStream) ↔
      req.parsed = .ok reqBody ∧ req.route.isStream reqBody = .ok isStream := by
  unfold opening
  cases req.parsed with
  | error what => simp
  | ok parsed =>
    cases hstream : req.route.isStream parsed with
    | error what =>
      simp only [ok_bind, hstream, error_bind, reduceCtorEq, Except.ok.injEq, false_iff]
      rintro ⟨rfl, hok⟩
      rw [hstream] at hok
      cases hok
    | ok stream =>
      simp only [ok_bind, hstream, pure_ok, Except.ok.injEq, Prod.mk.injEq]
      constructor
      · rintro ⟨rfl, rfl⟩
        exact ⟨rfl, hstream⟩
      · rintro ⟨rfl, hok⟩
        rw [hstream] at hok
        cases hok
        exact ⟨rfl, rfl⟩

/-- A request whose opening throws reaches no call. -/
theorem callsEmbedding_of_error {req : HttpRequest} {what : String}
    (h : req.opening = .error what) : req.callsEmbedding = false := by
  obtain ⟨route, parsed⟩ := req
  cases parsed with
  | error => exact Bool.and_false _
  | ok reqBody =>
    cases route with
    | embeddings => cases h
    | loadModel | unloadModel | completions | getModelStatus | getRunningModels => rfl

theorem callsEmbedding_of_ok {req : HttpRequest} {reqBody : Json} {isStream : Bool}
    (h : req.opening = .ok (reqBody, isStream)) :
    req.callsEmbedding = decide (req.route = .embeddings) := by
  rw [callsEmbedding, (opening_eq_ok.mp h).1]
  exact Bool.and_true _

end HttpRequest

structure Response where
  status : Int
  content : Json

/-- `resp.set_content(...)` and `resp.status`, as every handler sets them from a reply. -/
def Response.ofReply (reply : Reply) : Response where
  status := reply.1.statusCode
  content := reply.2

/-- Where a handler is: it let an exception out, it returned, it is about to pop the one reply of
`process_non_stream_res`, or its content provider runs.  `id` stands for the callback it made. -/
inductive Handler where
  | failed
  | responded (resp : Option Response)
  | popping (id : Nat) (q : SyncQueue)
  | providing (id : Nat) (provider : ContentProvider)

def SyncQueue.pushAll (queue : SyncQueue) (items : List Reply) : SyncQueue :=
  items.foldl SyncQueue.push queue

namespace Handler

/-- The callbacks of some events push to the queue of the handler that made them. -/
def deliver (events : List Event) : Handler → Handler
  | popping id q => popping id (q.pushAll (replies (about Event.subject? id events)))
  | providing id provider =>
      providing id { provider with
        q := provider.q.pushAll (replies (about Event.subject? id events)) }
  | handler => handler

/-- The handler after its engine call, which logged `events`. -/
def afterCall (route : Route) (isStream : Bool) (id : Nat) (events : List Event) : Handler :=
  let told := replies (about Event.subject? id events)
  let q : SyncQueue := SyncQueue.pushAll { q := [] } told
  -- the exception leaves the handler before it looks at its queue
  if events.any fun e => e matches .threw _ then failed
  else
    match route with
    | .completions => if isStream then providing id (.registered q) else popping id q
    -- `HandleEmbedding` drops its callback, and the handler pops all the same
    | .embeddings => popping id q
    | _ => responded (told.getLast?.map Response.ofReply)

/-- The next step of a handler after its call. -/
def proceed (writable : Bool) : Handler → Option Handler
  | popping _ q => q.waitAndPop.map fun (reply, _) => responded (some (Response.ofReply reply))
  | providing id provider => (provider.step writable).map (providing id)
  | failed | responded _ => none

/-- The callback for which the handler is blocked in `wait_and_pop` on an empty queue. -/
def waitsFor : Handler → Option Nat
  | popping id q => if q.q.isEmpty then some id else none
  | providing id provider =>
      match provider.point with
      | .pop => if provider.q.q.isEmpty then some id else none
      | _ => none
  | failed | responded _ => none

/-- The content provider of this handler has not been called. -/
def isUncalled : Handler → Bool
  | providing _ provider => (provider.point matches .pop) && provider.sink.offers.isEmpty
  | _ => false

end Handler

structure Server (σ : Type) where
  engine : System σ
  handlers : List Handler

namespace Server

/-- A request comes in, the engine's worker takes a step, or a handler goes on. -/
inductive Act where
  | request (req : HttpRequest) (env : Env)
  | work (act : CortexOnnx.Act)
  | proceed (index : Nat) (writable : Bool)

variable (vendor) in
def step (s : Server σ) (act : Act) : Option (Server σ) :=
  if s.engine.fault.isSome then none
  else
    match act with
    | .request req env =>
        match req.opening with
        -- no engine call is made
        | .error _ => some { s with handlers := s.handlers ++ [.failed] }
        | .ok (reqBody, isStream) =>
            (System.step vendor .fine s.engine (req.route.call env reqBody)).map fun engine =>
              let events := s.engine.since engine.log
              { engine
                handlers := s.handlers.map (Handler.deliver events) ++
                  [Handler.afterCall req.route isStream s.engine.next events] }
    | .work act =>
        match System.handler vendor s.engine.next act with
        | some _ => none
        | none =>
            (System.step vendor .fine s.engine act).map fun engine =>
              { engine, handlers := s.handlers.map (Handler.deliver (s.engine.since engine.log)) }
    | .proceed index writable =>
        (s.handlers[index]?.bind (Handler.proceed writable)).map fun handler =>
          { s with handlers := s.handlers.set index handler }

def fresh (startTime : Nat) (maxHistoryChat : Int) : Server σ where
  engine := .fresh startTime maxHistoryChat
  handlers := []

/-- No handler waits for a reply that nobody will send: where one is blocked on an empty queue, the
engine still has the task that will push to it. -/
def NoneStuck (s : Server σ) : Prop :=
  s.engine.fault = none → ∀ handler ∈ s.handlers, ∀ id, handler.waitsFor = some id →
    s.engine.IsAlive id

def Act.callsEmbedding : Act → Bool
  | .request req _ => req.callsEmbedding
  | .work _ | .proceed _ _ => false

end Server

/-! ## What a handler is owed -/

/-- Of what request `id` has been told, some replies were taken and the others are queued; the
request was queued or refused. -/
structure Serving (log : List Event) (id : Nat) (taken queued : List Reply) : Prop where
  conserved : replies (about Event.subject? id log) = taken ++ queued
  admitted : .queued id ∈ log ∨ about Event.subject? id log = [refusal id]

/-- A handler that pops serves its request, and has taken nothing after which it would stop. -/
def Handler.Served (log : List Event) : Handler → Prop
  | .popping id q => Serving log id [] q.q
  | .providing id provider => ∃ taken, provider.Took taken ∧ Serving log id taken provider.q.q
  | .failed | .responded _ => True

theorem SyncQueue.pushAll_q (queue : SyncQueue) (items : List Reply) :
    (queue.pushAll items).q = queue.q ++ items := by
  induction items generalizing queue with
  | nil => rw [List.append_nil]; rfl
  | cons item items ih =>
    show ((queue.push item).pushAll items).q = _
    rw [ih]
    show queue.q ++ [item] ++ items = _
    rw [List.append_assoc, List.singleton_append]

/-- A refused request has no task. -/
theorem Serving.refused {s : System σ} (ledger : s.Ledger vendor) {id : Nat}
    (h : about Event.subject? id s.log = [refusal id]) : ¬s.IsAlive id := by
  intro ⟨task, htask, hid⟩
  have hmem : .queued id ∈ about Event.subject? id s.log :=
    mem_about.mpr ⟨hid ▸ ledger.admitted task htask, rfl⟩
  rw [h, List.mem_singleton] at hmem
  cases hmem

theorem Serving.lt_next {s : System σ} {id : Nat} {taken queued : List Reply}
    (h : Serving s.log id taken queued) (ledger : s.Ledger vendor) : id < s.next := by
  rcases h.admitted with hqueued | hrefused
  · exact ledger.lt_next hqueued rfl
  · have hmem : refusal id ∈ about Event.subject? id s.log := by
      rw [hrefused]
      exact List.mem_cons_self
    exact ledger.lt_next (mem_about.mp hmem).1 rfl

/-- Whatever the engine does next, its replies to the request are queued behind the others. -/
theorem Serving.step {s t : System σ} {id : Nat} {taken queued : List Reply}
    (h : Serving s.log id taken queued) (ledger : s.Ledger vendor) (view : System.View vendor s t) :
    Serving t.log id taken (queued ++ replies (about Event.subject? id (s.since t.log))) := by
  obtain ⟨events, hlog⟩ := view.log_grows
  have hsince : s.since t.log = events := by rw [← hlog, System.since_append]
  rw [hsince]
  constructor
  · rw [← hlog, about_append, replies_append, h.conserved, List.append_assoc]
  · rcases h.admitted with hqueued | hrefused
    · apply Or.inl
      rw [← hlog]
      exact List.mem_append_left _ hqueued
    · apply Or.inr
      rw [view.record_kept (h.lt_next ledger) (Serving.refused ledger hrefused)]
      exact hrefused

theorem Handler.Served.deliver {s t : System σ} {handler : Handler} (h : handler.Served s.log)
    (ledger : s.Ledger vendor) (view : System.View vendor s t) :
    (handler.deliver (s.since t.log)).Served t.log := by
  cases handler with
  | failed | responded => trivial
  | popping id q =>
    show Serving t.log id [] _
    rw [SyncQueue.pushAll_q]
    exact Serving.step h ledger view
  | providing id provider =>
    obtain ⟨taken, htook, hserving⟩ := h
    refine ⟨taken, htook.queue _, ?_⟩
    show Serving t.log id taken (provider.q.pushAll _).q
    rw [SyncQueue.pushAll_q]
    exact hserving.step ledger view

/-- A blocked handler has taken all there was, and nothing after which it would have stopped. -/
theorem Handler.Served.drained {log : List Event} {handler : Handler} (h : handler.Served log)
    {id : Nat} (waits : handler.waitsFor = some id) :
    ∃ taken, Serving log id taken [] ∧ ∀ item ∈ taken, item.1.terminal = false := by
  cases handler with
  | failed | responded => cases waits
  | popping id' q =>
    simp only [waitsFor, List.isEmpty_iff, Option.ite_none_right_eq_some,
      Option.some.injEq] at waits
    obtain ⟨hempty, rfl⟩ := waits
    have hserving : Serving log id' [] q.q := h
    rw [hempty] at hserving
    exact ⟨[], hserving, fun _ hitem => absurd hitem List.not_mem_nil⟩
  | providing id' provider =>
    obtain ⟨taken, htook, hserving⟩ := h
    cases htook with
    | popping at_ goesOn =>
      simp only [waitsFor, at_, List.isEmpty_iff, Option.ite_none_right_eq_some,
        Option.some.injEq] at waits
      obtain ⟨hempty, rfl⟩ := waits
      rw [hempty] at hserving
      exact ⟨taken, hserving, goesOn⟩
    | writing at_ | testing at_ | returned at_ | threw at_ => simp [waitsFor, at_] at waits

/-- The request that a handler is blocked for has not been answered yet. -/
theorem Handler.Served.alive {s : System σ} {handler : Handler} (h : handler.Served s.log)
    (ledger : s.Ledger vendor) (running : s.fault = none) {id : Nat}
    (waits : handler.waitsFor = some id) : s.IsAlive id := by
  obtain ⟨taken, ⟨hconserved, hadmitted⟩, hgoes⟩ := h.drained waits
  rw [List.append_nil] at hconserved
  rcases hadmitted with hqueued | hrefused
  · obtain ⟨rest, habout, _, last, htranscript, hshape, _, hopen⟩ := ledger.replied id hqueued
    apply hopen running
    rcases hshape with hnone | ⟨status, body, hterminal, hlast⟩
    · exact hnone
    · -- a terminal reply would have been taken
      obtain ⟨chunks, hreplies, _⟩ := htranscript
      have hsame : replies (.queued id :: rest) = replies rest := rfl
      rw [habout, hsame, hreplies, hlast] at hconserved
      have hfalse := hgoes (status, body) (by rw [← hconserved]; simp)
      rw [hterminal] at hfalse
      cases hfalse
  -- the refusal is terminal as well
  · rw [hrefused] at hconserved
    have hfalse := hgoes _ (by rw [← hconserved]; exact List.mem_cons_self)
    cases hfalse

theorem Handler.Served.proceed {log : List Event} {handler handler' : Handler} {writable : Bool}
    (h : handler.Served log) (steps : handler.proceed writable = some handler') :
    handler'.Served log := by
  cases handler with
  | failed | responded => cases steps
  | popping id q =>
    obtain ⟨popped, _, rfl⟩ := Option.map_eq_some_iff.mp steps
    trivial
  | providing id provider =>
    obtain ⟨provider', hprovider, rfl⟩ := Option.map_eq_some_iff.mp steps
    obtain ⟨taken, htook, hconserved, hadmitted⟩ := h
    -- what it takes leaves its queue, so the sum stays the same
    obtain ⟨popped, htook', hq⟩ := htook.step hprovider
    refine ⟨taken ++ popped, htook', ?_, hadmitted⟩
    rw [hconserved, hq, List.append_assoc]

/-- The handler of every call but that of the embeddings is served once the call is made. -/
theorem served_afterCall {s t : System σ} {route : Route} {env : Env} {reqBody : Json}
    {isStream : Bool} (h : s.Tracked) (ledger : s.Ledger vendor) (hroute : route ≠ .embeddings)
    (ht : System.Transition vendor s (route.call env reqBody) t) :
    (Handler.afterCall route isStream s.next (s.since t.log)).Served t.log := by
  cases route with
  | embeddings => exact absurd rfl hroute
  -- answered inside the call, these never pop
  | loadModel | unloadModel | getModelStatus | getRunningModels =>
    unfold Handler.afterCall
    dsimp only
    split <;> trivial
  | completions =>
    have hunborn := ledger.unborn s.next (Nat.le_refl _)
    have hnew {event : Event} (log : t.log = s.log ++ [event])
        (hsubject : event.subject? = some s.next) :
        s.since t.log = [event] ∧ about Event.subject? s.next t.log = [event] ∧
          about Event.subject? s.next [event] = [event] := by
      have hone : about Event.subject? s.next [event] = [event] := by simp [about, hsubject]
      refine ⟨by rw [log, System.since_append], ?_, hone⟩
      rw [log, about_append, hunborn, hone]
      rfl
    have hopens : ∀ {event : Event}, t.log = s.log ++ [event] → event.subject? = some s.next →
        (event = .queued s.next ∨ event = refusal s.next) →
        (Handler.afterCall .completions isStream s.next (s.since t.log)).Served t.log := by
      intro event log hsubject hevent
      obtain ⟨hsince, habout, hone⟩ := hnew log hsubject
      have hserving : Serving t.log s.next [] (replies [event]) := by
        constructor
        · rw [habout]
          rfl
        · rcases hevent with rfl | rfl
          · apply Or.inl
            rw [log]
            exact List.mem_append_right _ List.mem_cons_self
          · exact Or.inr habout
      have hcalm : ([event].any fun e => e matches .threw _) = false := by
        rcases hevent with rfl | rfl <;> rfl
      have hpushed : (SyncQueue.pushAll { q := [] } (replies [event])).q = replies [event] :=
        SyncQueue.pushAll_q _ _
      rw [hsince, Handler.afterCall, hone]
      simp only [hcalm]
      cases isStream with
      | true =>
        refine ⟨[], ContentProvider.registered_took _, ?_⟩
        show Serving t.log s.next [] (SyncQueue.pushAll _ _).q
        rw [hpushed]
        exact hserving
      | false =>
        show Serving t.log s.next [] (SyncQueue.pushAll _ _).q
        rw [hpushed]
        exact hserving
    obtain ⟨hchat, _⟩ := ht.chatCall h
    cases hchat with
    | threw log =>
      rw [(hnew log rfl).1]
      trivial
    | refused log => exact hopens log rfl (Or.inr rfl)
    | queued _ log => exact hopens log rfl (Or.inl rfl)

namespace Server

variable (vendor) in
/-- The invariant of the server. -/
structure Serves (s : Server σ) : Prop where
  tracked : s.engine.Tracked
  ledger : s.engine.Ledger vendor
  served : ∀ handler ∈ s.handlers, handler.Served s.engine.log

theorem Serves.noneStuck {s : Server σ} (h : s.Serves vendor) : s.NoneStuck := by
  intro running handler hhandler id waits
  exact (h.served handler hhandler).alive h.ledger running waits

theorem fresh_serves (startTime : Nat) (maxHistoryChat : Int) :
    (fresh startTime maxHistoryChat : Server σ).Serves vendor where
  tracked := System.fresh_tracked startTime maxHistoryChat
  ledger := System.fresh_ledger startTime maxHistoryChat
  served := fun _ h => absurd h List.not_mem_nil

/-- A step of the engine, with its callbacks delivered. -/
theorem Serves.engineStep {s : Server σ} {act : CortexOnnx.Act} {engine : System σ}
    (h : s.Serves vendor) (taken : System.step vendor .fine s.engine act = some engine) :
    engine.Tracked ∧ engine.Ledger vendor ∧ System.Transition vendor s.engine act engine ∧
      ∀ handler ∈ s.handlers.map (Handler.deliver (s.engine.since engine.log)),
        handler.Served engine.log := by
  obtain ⟨running, _, ht⟩ := System.step_transition h.tracked.aligned taken
  refine ⟨ht.tracked h.tracked, ht.view.ledger h.ledger running, ht, ?_⟩
  intro handler hhandler
  obtain ⟨before, hbefore, rfl⟩ := List.mem_map.mp hhandler
  exact (h.served before hbefore).deliver h.ledger ht.view

theorem Serves.step {s t : Server σ} {act : Act} (h : s.Serves vendor)
    (hreq : act.callsEmbedding = false) (taken : step vendor s act = some t) : t.Serves vendor := by
  cases hfault : s.engine.fault with
  | some fault => simp [Server.step, hfault] at taken
  | none =>
    cases act with
    | request req env =>
      cases hopening : req.opening with
      | error what =>
        simp [Server.step, hfault, hopening] at taken
        subst taken
        refine ⟨h.tracked, h.ledger, ?_⟩
        intro handler hhandler
        rcases List.mem_append.mp hhandler with hold | hnew
        · exact h.served handler hold
        · rw [List.mem_singleton.mp hnew]
          trivial
      | ok opened =>
        simp [Server.step, hfault, hopening] at taken
        obtain ⟨engine, hcall, rfl⟩ := taken
        obtain ⟨htracked, hledger, ht, hserved⟩ := h.engineStep hcall
        have hroute : req.route ≠ .embeddings := by
          have hcalls := hreq
          rw [Act.callsEmbedding, HttpRequest.callsEmbedding_of_ok hopening] at hcalls
          exact of_decide_eq_false hcalls
        refine ⟨htracked, hledger, ?_⟩
        intro handler hhandler
        rcases List.mem_append.mp hhandler with hold | hnew
        · exact hserved handler hold
        · rw [List.mem_singleton.mp hnew]
          exact served_afterCall h.tracked h.ledger hroute ht
    -- a step of the worker only delivers
    | work act =>
      cases hhandler : System.handler vendor s.engine.next act with
      | some body => simp [Server.step, hfault, hhandler] at taken
      | none =>
        simp [Server.step, hfault, hhandler] at taken
        obtain ⟨engine, hwork, rfl⟩ := taken
        obtain ⟨htracked, hledger, _, hserved⟩ := h.engineStep hwork
        exact ⟨htracked, hledger, hserved⟩
    | proceed index writable =>
      rw [Server.step, if_neg (by simp [hfault])] at taken
      obtain ⟨handler', hgoes, rfl⟩ := Option.map_eq_some_iff.mp taken
      obtain ⟨handler, hat, hproceeds⟩ := Option.bind_eq_some_iff.mp hgoes
      refine ⟨h.tracked, h.ledger, ?_⟩
      intro other hother
      rcases List.mem_or_eq_of_mem_set hother with hold | rfl
      · exact h.served other hold
      · exact (h.served handler (List.mem_of_getElem? hat)).proceed hproceeds

/-- An embeddings handler is stuck as soon as its call returns. -/
theorem stuck_of_embeddings {s t : Server σ} {act : Act} (h : s.Serves vendor)
    (hreq : act.callsEmbedding = true) (taken : step vendor s act = some t) : ¬t.NoneStuck := by
  cases act with
  | work | proceed => cases hreq
  | request req env =>
    cases hopening : req.opening with
    | error what =>
      rw [Act.callsEmbedding, HttpRequest.callsEmbedding_of_error hopening] at hreq
      cases hreq
    | ok opened =>
      have hroute : req.route = .embeddings := by
        rw [Act.callsEmbedding, HttpRequest.callsEmbedding_of_ok hopening] at hreq
        exact of_decide_eq_true hreq
      cases hfault : s.engine.fault with
      | some fault => simp [Server.step, hfault] at taken
      | none =>
        simp [Server.step, hfault, hopening, hroute] at taken
        obtain ⟨engine, hcall, rfl⟩ := taken
        obtain ⟨_, _, ht, _⟩ := h.engineStep hcall
        cases ht
        intro hnone
        have hsince : s.engine.since (s.engine.answer s.engine.engine []).log = [] := by
          rw [System.answer_log, System.since_append]
        have halive : s.engine.IsAlive s.engine.next := by
          apply hnone hfault (.popping s.engine.next { q := [] })
          · apply List.mem_append_right
            rw [hsince]
            exact List.mem_cons_self
          · rfl
        -- the engine has no task of that number
        obtain ⟨task, htask, hid⟩ := halive
        have hlt := h.ledger.numbered task htask
        omega

/-- **No handler is left waiting**, in all of a run, exactly when it serves no embeddings request
whose body is parsed. -/
theorem noneStuck_throughout_iff {startTime : Nat} {maxHistoryChat : Int}
    {es : List (Server σ × Act)} {t : Server σ}
    (hrun : Run (step vendor) (fresh startTime maxHistoryChat) es t) :
    Throughout NoneStuck es t ↔ EveryStep (fun _ act => act.callsEmbedding = false) es := by
  apply hrun.throughout_iff (I := fun s => s.Serves vendor)
  · exact fresh_serves startTime maxHistoryChat
  · intro s act t hs _ htaken hnone
    cases hreq : act.callsEmbedding with
    | false => exact hs.step hreq htaken
    | true => exact absurd hnone (stuck_of_embeddings hs hreq htaken)
  · intro _ handler hhandler
    exact absurd hhandler List.not_mem_nil
  · intro s act t hs _ htaken
    cases hreq : act.callsEmbedding with
    | false => exact iff_of_true (hs.step hreq htaken).noneStuck rfl
    | true => exact iff_of_false (stuck_of_embeddings hs hreq htaken) (by decide)

/-- A stream that is unloaded after its first chunk, with the handlers of all the other routes, and
one for embeddings whose body is nested too deeply. -/
def busyServer : List Act :=
  [.request ⟨.loadModel, .ok (loadRequest "m")⟩ {},
    .request ⟨.completions, .ok (chatRequest true "x")⟩ {},
    .work (.start {}), .work (.iterate { token := 104 }), .proceed 1 true,
    .request ⟨.completions, .ok (chatRequest false "x")⟩ {},
    .request ⟨.unloadModel, .ok (.obj [])⟩ {}, .request ⟨.getRunningModels, .ok .null⟩ {},
    .request ⟨.embeddings, .error "Exceeded stackLimit in readValue()."⟩ {},
    .work (.iterate {}), .work .postLoop, .proceed 1 false,
    .request ⟨.completions, .ok (chatRequest true "x")⟩ {},
    .request ⟨.getModelStatus, .ok .null⟩ {}]

theorem noneStuck_of_busyServer : ∃ t,
    execute (step utf8Vendor) (fresh 0 0) busyServer = some t ∧
      Throughout NoneStuck (trace (step utf8Vendor) (fresh 0 0) busyServer) t := by
  have hruns : (execute (step utf8Vendor) (fresh 0 0) busyServer).any
      (fun t => t.engine.fault.isNone) = true := by decide
  obtain ⟨t, hexecute, hrun, _⟩ := exists_run_of_execute hruns
  have hasks : ∀ e ∈ trace (step utf8Vendor) (fresh 0 0) busyServer,
      e.2.callsEmbedding = false := by decide
  exact ⟨t, hexecute, (noneStuck_throughout_iff hrun).mpr hasks⟩

/-- One such request is enough. -/
theorem embeddings_leaves_handler_waiting :
    ¬∀ es t, Run (step utf8Vendor) (fresh 0 0) es t → Throughout NoneStuck es t := by
  have hruns : (execute (step utf8Vendor) (fresh 0 0)
      [.request ⟨.embeddings, .ok (.obj [])⟩ {}]).any (fun t =>
        t.engine.fault.isNone && t.engine.alive.isEmpty &&
        t.handlers.any (·.waitsFor = some 0)) = true := by decide
  obtain ⟨t, _, hrun, hstuck⟩ := exists_run_of_execute hruns
  simp only [Bool.and_eq_true, Option.isNone_iff_eq_none, List.isEmpty_iff, List.any_eq_true,
    decide_eq_true_eq] at hstuck
  obtain ⟨⟨hrunning, hnone⟩, handler, hhandler, hwaits⟩ := hstuck
  intro hclaim
  obtain ⟨task, htask, _⟩ := (hclaim _ t hrun).2 hrunning handler hhandler 0 hwaits
  rw [hnone] at htask
  exact absurd htask List.not_mem_nil

end Server

end CortexOnnx
