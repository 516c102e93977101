import CortexOnnx.Lib.Rows
import CortexOnnx.Server.Outcomes

/-!
# Every handler can be brought to an end

The handlers stand in the order of their requests.  From any state without a fault the worker and
the handlers alone, with no further request, can bring every handler to its end, except those that
have called `HandleEmbedding`: nothing ever ends one of those.
-/

namespace CortexOnnx

variable {σ : Type} {vendor : Vendor σ}

/-- A handler that has nothing left to do. -/
def Handler.isSettled : Handler → Bool
  | failed | responded _ => true
  | popping _ _ => false
  | providing _ provider => provider.point matches .returned

/-- The request that a handler waits for has a record. -/
def Handler.Heard (log : List Event) : Handler → Prop
  | popping id _ | providing id _ => about Event.subject? id log ≠ []
  | failed | responded _ => True

/-- What the handler of a request is. -/
def HttpRequest.HandledBy (vendor : Vendor σ) (s : System σ) (req : HttpRequest)
    (handler : Handler) : Prop :=
  handler.Attended vendor s ∧
    if req.callsEmbedding then ∃ id, handler = .popping id { q := [] } ∧
      about Event.subject? id s.log = []
    else handler.Heard s.log

theorem Handler.Heard.deliver {log log' events : List Event} {handler : Handler}
    (h : handler.Heard log) (grows : log <+: log') : (handler.deliver events).Heard log' := by
  obtain ⟨more, rfl⟩ := grows
  cases handler with
  | failed | responded => trivial
  | popping id q | providing id provider =>
    show about Event.subject? id (log ++ more) ≠ []
    rw [about_append]
    exact List.append_ne_nil_of_left_ne_nil h _

theorem HttpRequest.HandledBy.deliver {s t : System σ} {req : HttpRequest} {handler : Handler}
    (h : req.HandledBy vendor s handler) (ledger : s.Ledger vendor) (streaming : s.Streaming)
    (view : System.View vendor s t) :
    req.HandledBy vendor t (handler.deliver (s.since t.log)) := by
  obtain ⟨hattended, hkind⟩ := h
  have hattended' := hattended.deliver ledger streaming view
  refine ⟨hattended', ?_⟩
  split
  · rename_i hembeddings
    rw [if_pos hembeddings] at hkind
    obtain ⟨id, rfl, hrecord⟩ := hkind
    -- the record stays empty, and so does the queue
    have hrecord' : about Event.subject? id t.log = [] := by
      rw [view.record_kept hattended.1.earlier (not_isAlive_of_record ledger (by simp [hrecord]))]
      exact hrecord
    have hqueue := hattended'.2
    rw [hrecord'] at hqueue
    exact ⟨id, congrArg (Handler.popping id) (congrArg SyncQueue.mk hqueue.symm), hrecord'⟩
  · rename_i hother
    rw [if_neg hother] at hkind
    exact hkind.deliver view.log_grows

theorem HttpRequest.HandledBy.proceed {s : System σ} {req : HttpRequest}
    {handler handler' : Handler} {writable : Bool} (h : req.HandledBy vendor s handler)
    (steps : handler.proceed writable = some handler') : req.HandledBy vendor s handler' := by
  obtain ⟨hattended, hkind⟩ := h
  refine ⟨hattended.proceed steps, ?_⟩
  split
  · rename_i hembeddings
    rw [if_pos hembeddings] at hkind
    obtain ⟨id, rfl, _⟩ := hkind
    cases steps
  · rename_i hother
    rw [if_neg hother] at hkind
    cases handler with
    | failed | responded => cases steps
    | popping id q =>
      obtain ⟨popped, _, rfl⟩ := Option.map_eq_some_iff.mp steps
      trivial
    | providing id provider =>
      obtain ⟨provider', _, rfl⟩ := Option.map_eq_some_iff.mp steps
      exact hkind

theorem handledBy_afterCall {s t : System σ} {req : HttpRequest} {env : Env} {reqBody : Json}
    {isStream : Bool} (h : s.Tracked) (ledger : s.Ledger vendor)
    (opening : req.opening = .ok (reqBody, isStream))
    (ht : System.Transition vendor s (req.route.call env reqBody) t) :
    req.HandledBy vendor t (Handler.afterCall req.route isStream s.next (s.since t.log)) := by
  have hreads := (HttpRequest.opening_eq_ok.mp opening).2
  have hcalls := HttpRequest.callsEmbedding_of_ok opening
  refine ⟨attended_afterCall h ledger hreads ht, ?_⟩
  rw [hcalls]
  cases hroute : req.route with
  | loadModel | unloadModel | getModelStatus | getRunningModels =>
    rw [if_neg (by decide)]
    unfold Handler.afterCall
    dsimp only
    split <;> trivial
  | embeddings =>
    rw [hroute] at ht
    cases ht
    rw [if_pos (by decide), System.answer_log, System.since_append]
    refine ⟨s.next, rfl, ?_⟩
    rw [List.append_nil]
    exact ledger.unborn s.next (Nat.le_refl _)
  | completions =>
    rw [hroute] at ht
    obtain ⟨hchat, hnext, hworker⟩ := ht.chatCall h
    obtain ⟨event, _, hcalled⟩ := hchat.called ledger hnext hworker
    have hheard : about Event.subject? s.next t.log ≠ [] := by
      by_cases hevent : event = .queued s.next
      · exact List.ne_nil_of_mem (mem_about.mpr ⟨hcalled.queued hevent, rfl⟩)
      · rw [hcalled.record hevent]
        exact List.cons_ne_nil _ _
    rw [if_neg (by decide)]
    unfold Handler.afterCall
    dsimp only
    split
    · trivial
    · split
      · exact hheard
      · exact hheard

namespace Server

/-- The requests of a run, in order. -/
def requests (es : List (Server σ × Act)) : List HttpRequest :=
  es.filterMap fun e => match e.2 with
    | .request req _ => some req
    | .work _ | .proceed _ _ => none

def Act.isRequest : Act → Bool
  | .request _ _ => true
  | .work _ | .proceed _ _ => false

variable (vendor) in
/-- The handlers of the server are those of the requests `reqs`. -/
structure Handles (reqs : List HttpRequest) (s : Server σ) : Prop where
  attends : s.Attends vendor
  rows : List.Forall₂ (fun req handler => req.HandledBy vendor s.engine handler) reqs s.handlers

/-- The handlers after a step of the engine. -/
theorem Handles.engineStep {reqs : List HttpRequest} {s : Server σ} {act : CortexOnnx.Act}
    {engine : System σ} (h : s.Handles vendor reqs)
    (taken : System.step vendor .fine s.engine act = some engine) :
    List.Forall₂ (fun req handler => req.HandledBy vendor engine handler) reqs
      (s.handlers.map (Handler.deliver (s.engine.since engine.log))) := by
  have ht := h.attends.tracked.transition taken
  rw [List.forall₂_map_right_iff]
  exact h.rows.imp fun _ _ hhandled =>
    hhandled.deliver h.attends.ledger h.attends.streaming ht.view

theorem Handles.step {reqs : List HttpRequest} {s t : Server σ} {act : Act}
    (h : s.Handles vendor reqs) (taken : Server.step vendor s act = some t) :
    t.Handles vendor (reqs ++ requests [(s, act)]) := by
  refine ⟨h.attends.step taken, ?_⟩
  obtain ⟨_, hmove⟩ := step_move taken
  cases hmove with
  | unread opening =>
    refine List.rel_append h.rows (List.Forall₂.cons ⟨trivial, ?_⟩ List.Forall₂.nil)
    rw [HttpRequest.callsEmbedding_of_error opening]
    trivial
  | called opening called =>
    refine List.rel_append (h.engineStep called) (List.Forall₂.cons ?_ List.Forall₂.nil)
    exact handledBy_afterCall h.attends.tracked h.attends.ledger opening
      (h.attends.tracked.transition called)
  | worked worked =>
    rw [requests, List.filterMap_cons_none rfl, List.filterMap_nil, List.append_nil]
    exact h.engineStep worked
  | proceeded at_ goes =>
    rw [requests, List.filterMap_cons_none rfl, List.filterMap_nil, List.append_nil]
    exact forall₂_set h.rows at_ fun _ hhandled => hhandled.proceed goes

theorem Handles.run {reqs : List HttpRequest} {s t : Server σ} {es : List (Server σ × Act)}
    (h : s.Handles vendor reqs) (hrun : Run (Server.step vendor) s es t) :
    t.Handles vendor (reqs ++ requests es) := by
  induction hrun with
  | nil =>
    rw [requests, List.filterMap_nil, List.append_nil]
    exact h
  | snoc _ taken ih =>
    rw [requests, List.filterMap_append, ← List.append_assoc]
    exact ih.step taken

theorem run_handles {startTime : Nat} {maxHistoryChat : Int} {es : List (Server σ × Act)}
    {t : Server σ} (hrun : Run (step vendor) (fresh startTime maxHistoryChat) es t) :
    t.Handles vendor (requests es) :=
  Handles.run ⟨fresh_attends startTime maxHistoryChat, List.Forall₂.nil⟩ hrun

/-! ## The end of all work -/

/-- A step of the worker is a step of the server. -/
theorem step_work {s : Server σ} {act : CortexOnnx.Act} {engine : System σ}
    (taken : System.step vendor .fine s.engine act = some engine) (work : act.isWork = true) :
    step vendor s (.work act) = some
      { engine, handlers := s.handlers.map (Handler.deliver (s.engine.since engine.log)) } := by
  have hfault : s.engine.fault.isSome = false := by
    rw [System.step] at taken
    split at taken
    · cases taken
    · rename_i hfault
      simpa using hfault
  have hhandler : System.handler vendor s.engine.next act = none := by
    cases act <;> first | rfl | cases work
  simp [Server.step, hfault, hhandler, taken]

/-- The steps of the worker are steps of the server. -/
theorem run_of_workerRun {s : Server σ} {es : List (System σ × CortexOnnx.Act)}
    {engine : System σ} (hrun : Run (System.step vendor .fine) s.engine es engine)
    (work : EveryStep (fun _ act => act.isWork = true) es) :
    ∃ es' t, Run (step vendor) s es' t ∧ EveryStep (fun _ act => act.isRequest = false) es' ∧
      t.engine = engine := by
  induction hrun with
  | nil => exact ⟨[], s, Run.nil, everyStep_nil, rfl⟩
  | @snoc es engine engine' act before taken ih =>
    obtain ⟨hes, hact⟩ := everyStep_snoc.mp work
    obtain ⟨es', t, hrun', hnone, rfl⟩ := ih hes
    exact ⟨_, _, hrun'.snoc (step_work taken hact), everyStep_snoc.mpr ⟨hnone, rfl⟩, rfl⟩

end Server

/-- The steps that a handler still takes. -/
def Handler.stepsLeft : Handler → Nat
  | failed | responded _ => 0
  | popping _ _ => 1
  | providing _ provider => 3 * provider.q.q.length + provider.point.stepsLeft

/-- Once its task is gone, the handler of a request with a record goes on. -/
theorem Handler.Attended.goesOn {s : System σ} {handler : Handler}
    (h : handler.Attended vendor s) (ledger : s.Ledger vendor) (running : s.fault = none)
    (drained : s.alive = []) (heard : handler.Heard s.log) (busy : handler.isSettled = false) :
    ∃ handler', handler.proceed true = some handler' ∧
      handler'.stepsLeft < handler.stepsLeft := by
  have hdead : ∀ id, ¬s.IsAlive id := by
    rintro id ⟨task, htask, _⟩
    rw [drained] at htask
    cases htask
  -- with no task left every request with a record was told an end
  have htold : ∀ {id : Nat} {stream : Bool}, Asked vendor s id stream →
      about Event.subject? id s.log ≠ [] →
      ∃ reply ∈ replies (about Event.subject? id s.log), reply.1.terminal = true := by
    intro id stream hasked hheard
    rcases hasked.origin with ⟨hadmitted, _⟩ | hrecord | hrecord
    · obtain ⟨rest, habout, _, last, ⟨chunks, hreplies, _⟩, hshape, _, hopen⟩ :=
        ledger.replied id hadmitted
      have hall : replies (about Event.subject? id s.log) = chunks ++ last := by
        rw [habout]
        exact hreplies
      rcases hshape with hnone | ⟨status, body, hterminal, rfl⟩
      · exact absurd (hopen running hnone) (hdead id)
      · exact ⟨(status, body), by rw [hall]; simp, hterminal⟩
    · exact ⟨_, by rw [hrecord]; exact List.mem_cons_self, rfl⟩
    · exact absurd hrecord hheard
  cases handler with
  | failed | responded => cases busy
  | popping id q =>
    obtain ⟨hasked, hqueued⟩ := h
    obtain ⟨reply, hreply, _⟩ := htold hasked heard
    rw [hqueued] at hreply
    obtain ⟨first, rest, hq⟩ := List.exists_cons_of_ne_nil (List.ne_nil_of_mem hreply)
    refine ⟨.responded (some (Response.ofReply first)), ?_, Nat.zero_lt_one⟩
    simp [Handler.proceed, SyncQueue.waitAndPop, hq]
  | providing id provider =>
    obtain ⟨hasked, taken, htook, hqueued⟩ := h
    have hreadable : ∀ item ∈ taken, ∃ str, dataField item.2 = .ok str := by
      intro item hitem
      exact hasked.readable ledger item (by rw [hqueued]; exact List.mem_append_left _ hitem)
    rcases htook.goesOn hreadable with hreturned | ⟨hq, hgoes⟩ | ⟨provider', hstep⟩
    · rw [Handler.isSettled, hreturned] at busy
      cases busy
    -- the end was not taken yet, so it is in the queue
    · obtain ⟨reply, hreply, hterminal⟩ := htold hasked heard
      rw [hqueued, hq, List.append_nil] at hreply
      rw [hgoes reply hreply] at hterminal
      cases hterminal
    · refine ⟨.providing id provider', by rw [Handler.proceed, hstep]; rfl, ?_⟩
      have hless := ContentProvider.step_stepsLeft hstep
      simp only [Handler.stepsLeft]
      omega

namespace Server

/-- The steps that all handlers still take. -/
def stepsLeft (s : Server σ) : Nat := (s.handlers.map Handler.stepsLeft).sum

/-- A handler that is settled, or that nobody will ever answer. -/
def Quiescent (s : Server σ) : Prop :=
  ∀ handler ∈ s.handlers, handler.isSettled = true ∨
    ∃ id q, handler = .popping id q ∧ about Event.subject? id s.engine.log = []

theorem quiescent_of_handles {reqs : List HttpRequest} {s : Server σ} (h : s.Handles vendor reqs)
    (quiescent : s.Quiescent) :
    List.Forall₂ (fun req handler => handler.isSettled = !req.callsEmbedding) reqs s.handlers := by
  apply (forall₂_and_mem h.rows quiescent).imp
  rintro req handler ⟨⟨_, hkind⟩, hquiet⟩
  cases hembeddings : req.callsEmbedding with
  | true =>
    rw [if_pos hembeddings] at hkind
    obtain ⟨id, rfl, _⟩ := hkind
    rfl
  | false =>
    rw [if_neg (by simp [hembeddings])] at hkind
    rcases hquiet with hsettled | ⟨id, q, rfl, hrecord⟩
    · exact hsettled
    · exact absurd hrecord hkind

/-- With all tasks gone the handlers settle, one step after another. -/
theorem exists_quiescent {reqs : List HttpRequest} {s : Server σ} (h : s.Handles vendor reqs)
    (running : s.engine.fault = none) (drained : s.engine.alive = []) :
    ∃ es t, Run (step vendor) s es t ∧ EveryStep (fun _ act => act.isRequest = false) es ∧
      (t.Handles vendor reqs ∧ t.engine.fault = none ∧ t.engine.alive = []) ∧ t.Quiescent := by
  apply exists_run_of_decreasing (I := fun s => s.Handles vendor reqs ∧ s.engine.fault = none ∧
    s.engine.alive = []) stepsLeft ?_ ⟨h, running, drained⟩
  rintro s ⟨hs, hrunning, hdrained⟩ hbusy
  obtain ⟨handler, hmem, hnot⟩ : ∃ handler ∈ s.handlers, ¬(handler.isSettled = true ∨
      ∃ id q, handler = .popping id q ∧ about Event.subject? id s.engine.log = []) := by
    simpa [Quiescent] using hbusy
  have hheard : handler.Heard s.engine.log ∨
      ∃ id q, handler = .popping id q ∧ about Event.subject? id s.engine.log = [] := by
    apply forall_mem_of_forall₂ hs.rows ?_ handler hmem
    rintro req handler ⟨_, hkind⟩
    split at hkind
    · obtain ⟨id, rfl, hrecord⟩ := hkind
      exact Or.inr ⟨id, _, rfl, hrecord⟩
    · exact Or.inl hkind
  have hheard := hheard.resolve_right fun hsilent => hnot (Or.inr hsilent)
  have hunsettled : handler.isSettled = false := by
    by_contra hsettled
    exact hnot (Or.inl (by simpa using hsettled))
  obtain ⟨handler', hgoes, hless⟩ := (hs.attends.attended handler hmem).goesOn hs.attends.ledger
    hrunning hdrained hheard hunsettled
  obtain ⟨i, hat⟩ := List.getElem?_of_mem hmem
  have htaken : step vendor s (.proceed i true) =
      some { s with handlers := s.handlers.set i handler' } := by
    simp [Server.step, hrunning, hat, hgoes]
  have hnext := hs.step htaken
  rw [requests, List.filterMap_cons_none rfl, List.filterMap_nil, List.append_nil] at hnext
  exact ⟨_, _, rfl, htaken, ⟨hnext, hrunning, hdrained⟩, sum_map_set_lt hat hless⟩

/-- **Every handler can be brought to its end**, whatever state a run without a fault has reached:
with no further request, the worker and the handlers have steps after which exactly the handlers
that called `HandleEmbedding` have not returned. -/
theorem exists_settled {startTime : Nat} {maxHistoryChat : Int} {es : List (Server σ × Act)}
    {t : Server σ} (hrun : Run (step vendor) (fresh startTime maxHistoryChat) es t)
    (running : t.engine.fault = none) :
    ∃ es' u, Run (step vendor) t es' u ∧ EveryStep (fun _ act => act.isRequest = false) es' ∧
      List.Forall₂ (fun req handler => handler.isSettled = !req.callsEmbedding) (requests es)
        u.handlers := by
  have hhandles := run_handles hrun
  -- first the tasks, and then the handlers
  have hdrains : ∃ works engine, Run (System.step vendor .fine) t.engine works engine ∧
      EveryStep (fun _ act => act.isWork = true) works ∧
      (engine.Tracked ∧ engine.fault = none) ∧ engine.alive = [] :=
    System.exists_drained hhandles.attends.tracked running
  obtain ⟨works, engine, hworks, hwork, ⟨_, hrunning⟩, hdrained⟩ := hdrains
  obtain ⟨es', u, hrun', hes', rfl⟩ := run_of_workerRun hworks hwork
  have hnone : requests es' = [] := by
    apply List.filterMap_eq_nil_iff.mpr
    rintro ⟨s, act⟩ he
    have hact := hes' _ he
    cases act <;> first | rfl | cases hact
  have hhandles' := hhandles.run hrun'
  rw [hnone, List.append_nil] at hhandles'
  obtain ⟨es'', v, hrun'', hes'', ⟨hv, _, _⟩, hquiet⟩ :=
    exists_quiescent hhandles' hrunning hdrained
  exact ⟨es' ++ es'', v, hrun'.append hrun'', everyStep_append hes' hes'',
    quiescent_of_handles hv hquiet⟩

/-- Among its handlers one is in the middle of its stream and two serve the embeddings route, but
one of these was left by the exception of its parser. -/
def halfway : List Act :=
  [.request ⟨.loadModel, .ok (loadRequest "m")⟩ {}, .request ⟨.embeddings, .ok .null⟩ {},
    .request ⟨.completions, .ok (chatRequest true "x")⟩ {},
    .request ⟨.embeddings, .error "Exceeded stackLimit in readValue()."⟩ {}, .work (.start {}),
    .work (.iterate { token := 104 }), .proceed 2 false]

theorem settled_of_halfway : ∃ es t es' u, Run (step utf8Vendor) (fresh 0 0) es t ∧
    Run (step utf8Vendor) t es' u ∧ EveryStep (fun _ act => act.isRequest = false) es' ∧
      List.Forall₂ (fun req handler => handler.isSettled = !req.callsEmbedding) (requests es)
        u.handlers := by
  have hruns : (execute (step utf8Vendor) (fresh 0 0) halfway).any
      (fun t => t.engine.fault.isNone) = true := by decide
  obtain ⟨t, _, hrun, hrunning⟩ := exists_run_of_execute hruns
  obtain ⟨es', u, hrun', hes', hsettled⟩ := exists_settled hrun (by simpa using hrunning)
  exact ⟨_, t, es', u, hrun, hrun', hes', hsettled⟩

end Server

end CortexOnnx
