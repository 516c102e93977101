import CortexOnnx.Server.Service

/-!
# Stopping the service

The service can be stopped from a state of a run exactly when no request of the run has called
`HandleEmbedding`: its listening thread then closes every connection and returns, and otherwise it
waits for ever.
-/

namespace CortexOnnx

variable {σ : Type} {vendor : Vendor σ}

/-! ## Which connections are open -/

theorem Listen.enqueue_log {n : Nat} {s t : Listen Nat} {sock : Nat} (h : s.Conserves n 0)
    (taken : s.step (.enqueue sock) = some t) :
    t.accepted = s.accepted ++ [sock] ∧ t.finished = s.finished := by
  cases Listen.step_move taken with
  | enqueued => exact ⟨rfl, rfl⟩
  | refused at_ full =>
    rw [h.limit] at full
    exact absurd full.1 (Nat.lt_irrefl 0)

theorem Listen.own_log {s t : Listen Nat} {act : Listen.Act Nat} (own : act.isOwn = true)
    (taken : s.step act = some t) : t.accepted = s.accepted ∧ t.finished = s.finished := by
  cases Listen.step_move taken with
  | enqueued | refused | finished => cases own
  | notified | unheard | closed | notifiedAll | joined | took | slept | left | woke =>
    exact ⟨rfl, rfl⟩

theorem Listen.finish_log {s t : Listen Nat} {thread sock : Nat}
    (calls : s.pool.threads[thread]? = some (.running sock))
    (taken : s.step (.finish thread) = some t) :
    t.accepted = s.accepted ∧ t.finished = s.finished ++ [sock] := by
  cases Listen.step_move taken with
  | finished calls' =>
    rw [calls] at calls'
    cases calls'
    exact ⟨rfl, rfl⟩

theorem Server.handlers_kept {s t : Server σ} {act : Server.Act}
    (taken : Server.step vendor s act = some t) : s.handlers.length ≤ t.handlers.length := by
  cases (Server.step_move taken).2 with
  | unread => simp
  | called => simp
  | worked => simp
  | proceeded => simp

theorem Server.request_handled {s t : Server σ} {req : HttpRequest} {env : Env}
    (taken : Server.step vendor s (.request req env) = some t) :
    s.handlers.length < t.handlers.length := by
  cases (Server.step_move taken).2 with
  | unread => simp
  | called => simp

namespace Service

/-- The sockets are numbered as they come in, and those that the pool has finished are closed. -/
structure Opens (s : Service σ) : Prop where
  numbered : s.listen.accepted = List.range s.connections.length
  closed_iff : ∀ sock : Nat, s.connections[sock]? = some .closed ↔ sock ∈ s.listen.finished
  served : ∀ sock index left : Nat, s.connections[sock]? = some (.handling index left) →
    index < s.server.handlers.length

theorem fresh_opens (startTime : Nat) (maxHistoryChat : Int) (n : Nat) :
    (fresh startTime maxHistoryChat n : Service σ).Opens := by
  refine ⟨rfl, fun sock => ⟨fun hat => ?_, fun hmem => ?_⟩, fun sock index left hat => ?_⟩
  · cases hat
  · exact absurd hmem List.not_mem_nil
  · cases hat

theorem closed_set {connections : List Connection} {sock : Nat} {c c' : Connection}
    (at_ : connections[sock]? = some c) (hc : c ≠ .closed) (hc' : c' ≠ .closed) (other : Nat) :
    (connections.set sock c')[other]? = some .closed ↔ connections[other]? = some .closed := by
  by_cases hother : sock = other
  · subst hother
    have hlt : sock < connections.length := (List.getElem?_eq_some_iff.mp at_).1
    rw [List.getElem?_set_self hlt, at_]
    simp [hc, hc']
  · rw [List.getElem?_set_ne hother]

theorem Opens.accepted_of_started {n : Nat} {s : Service σ} (h : s.Opens)
    (conserves : s.listen.Conserves n 0) {sock : Nat} (hsock : sock ∈ s.listen.started) :
    sock < s.connections.length := by
  have hmem : sock ∈ s.listen.accepted := by
    rw [conserves.order]
    exact List.mem_append_left _ hsock
  rw [h.numbered] at hmem
  exact List.mem_range.mp hmem

theorem Opens.step {n : Nat} {reqs : List HttpRequest} {s t : Service σ} {act : Act}
    (h : s.Opens) (parts : Parts vendor n reqs s) (taken : Service.step vendor s act = some t) :
    t.Opens := by
  have hstarted : ∀ sock ∈ s.listen.started, sock < s.connections.length :=
    fun _ hsock => h.accepted_of_started parts.conserves hsock
  obtain ⟨hnumbered, hclosed, hserved⟩ := h
  cases (step_move taken).2 with
  | accepted goes =>
    obtain ⟨haccepted, hfinished⟩ := Listen.enqueue_log parts.conserves goes
    refine ⟨?_, fun sock => ⟨fun hat => ?_, fun hmem => ?_⟩, fun sock index left hat => ?_⟩
    · dsimp only
      rw [haccepted, hnumbered, List.length_append, List.length_singleton, List.range_succ]
    · dsimp only
      rw [hfinished]
      exact (hclosed sock).mp (getElem?_of_opened hat (by simp))
    · dsimp only at hmem
      rw [hfinished] at hmem
      have hlt := hstarted sock (parts.conserves.once.subset (List.mem_append_left _ hmem))
      exact (List.getElem?_append_left hlt).trans ((hclosed sock).mpr hmem)
    · exact hserved sock index left (getElem?_of_opened hat (by simp))
  | listened own goes =>
    obtain ⟨haccepted, hfinished⟩ := Listen.own_log own goes
    refine ⟨haccepted.trans hnumbered, fun sock => ?_, hserved⟩
    dsimp only
    rw [hfinished]
    exact hclosed sock
  | @requested thread req env sock left server serves at_ goes =>
    have hlt : sock < s.connections.length := (List.getElem?_eq_some_iff.mp at_).1
    refine ⟨?_, fun other => ?_, fun other index left' hat => ?_⟩
    · dsimp only
      rw [hnumbered, List.length_set]
    · exact (closed_set at_ (by simp) (by simp) other).trans (hclosed other)
    · by_cases hother : sock = other
      · subst hother
        rw [List.getElem?_set_self hlt] at hat
        cases hat
        exact Server.request_handled goes
      · rw [List.getElem?_set_ne hother] at hat
        exact Nat.lt_of_lt_of_le (hserved other index left' hat) (Server.handlers_kept goes)
  | worked goes =>
    refine ⟨hnumbered, hclosed, fun sock index left hat => ?_⟩
    exact Nat.lt_of_lt_of_le (hserved sock index left hat) (Server.handlers_kept goes)
  | proceeded serves at_ goes =>
    refine ⟨hnumbered, hclosed, fun sock index left hat => ?_⟩
    exact Nat.lt_of_lt_of_le (hserved sock index left hat) (Server.handlers_kept goes)
  | @responded thread sock index left handler serves at_ handled ends =>
    have hlt : sock < s.connections.length := (List.getElem?_eq_some_iff.mp at_).1
    refine ⟨?_, fun other => ?_, fun other index' left' hat => ?_⟩
    · dsimp only
      rw [hnumbered, List.length_set]
    · exact (closed_set at_ (by simp) (by simp) other).trans (hclosed other)
    · by_cases hother : sock = other
      · subst hother
        rw [List.getElem?_set_self hlt] at hat
        cases hat
      · rw [List.getElem?_set_ne hother] at hat
        exact hserved other index' left' hat
  | @closed thread sock left listen serves at_ goes =>
    have hlt : sock < s.connections.length := (List.getElem?_eq_some_iff.mp at_).1
    obtain ⟨haccepted, hfinished⟩ := Listen.finish_log (thread_of_socket serves) goes
    refine ⟨?_, fun other => ?_, fun other index left' hat => ?_⟩
    · dsimp only
      rw [haccepted, hnumbered, List.length_set]
    · dsimp only
      rw [hfinished, List.mem_append, List.mem_singleton]
      by_cases hother : sock = other
      · subst hother
        rw [List.getElem?_set_self hlt]
        exact ⟨fun _ => .inr rfl, fun _ => rfl⟩
      · rw [List.getElem?_set_ne hother, hclosed other]
        exact ⟨.inl, fun hmem => hmem.resolve_right fun hsame => hother hsame.symm⟩
    · by_cases hother : sock = other
      · subst hother
        rw [List.getElem?_set_self hlt] at hat
        cases hat
      · rw [List.getElem?_set_ne hother] at hat
        exact hserved other index left' hat

theorem run_opens {startTime : Nat} {maxHistoryChat : Int} {n : Nat}
    {es : List (Service σ × Act)} {t : Service σ}
    (hrun : Run (Service.step vendor) (fresh startTime maxHistoryChat n) es t) : t.Opens := by
  induction hrun with
  | nil => exact fresh_opens startTime maxHistoryChat n
  | snoc before taken ih => exact ih.step (run_parts before) taken

/-- A connection that a thread serves is open. -/
theorem Opens.open_of_running {n : Nat} {s : Service σ} (h : s.Opens)
    (conserves : s.listen.Conserves n 0) {sock : Nat} (hsock : sock ∈ s.listen.pool.running) :
    ∃ connection, s.connections[sock]? = some connection ∧ connection ≠ .closed := by
  have hstarted := conserves.once.subset (List.mem_append_right s.listen.finished hsock)
  have hlt := h.accepted_of_started conserves hstarted
  refine ⟨_, List.getElem?_eq_getElem hlt, fun hclosed => ?_⟩
  have hfinished := (h.closed_iff sock).mp ((List.getElem?_eq_getElem hlt).trans
    (congrArg some hclosed))
  -- it would have been started twice
  have hnodup : s.listen.started.Nodup := by
    have hall : s.listen.accepted.Nodup := by
      rw [h.numbered]
      exact List.nodup_range
    rw [conserves.order] at hall
    exact (List.nodup_append.mp hall).1
  have honce := conserves.once.symm.nodup hnodup
  exact (List.nodup_append.mp honce).2.2 sock hfinished sock hsock rfl

end Service

/-! ## Bringing the service to an end -/

/-- The steps that a connection still takes, apart from its handler. -/
def Connection.stepsLeft : Connection → Nat
  | reading _ => 1
  | handling _ _ => 2
  | closed => 0

namespace Service

def stepsLeft (s : Service σ) : Nat :=
  s.listen.stepsLeft + s.server.stepsLeft + (s.connections.map Connection.stepsLeft).sum

/-- Nothing comes in from outside. -/
def Act.isInput : Act → Bool
  | .accept | .request _ _ _ => true
  | _ => false

variable (vendor) in
/-- The states of a service with these requests. -/
def Reached (startTime : Nat) (maxHistoryChat : Int) (n : Nat) (reqs : List HttpRequest)
    (s : Service σ) : Prop :=
  ∃ es, Run (Service.step vendor) (fresh startTime maxHistoryChat n) es s ∧ requests es = reqs

theorem Reached.step {startTime : Nat} {maxHistoryChat : Int} {n : Nat} {reqs : List HttpRequest}
    {s t : Service σ} {act : Act} (h : Reached vendor startTime maxHistoryChat n reqs s)
    (input : act.isInput = false) (taken : Service.step vendor s act = some t) :
    Reached vendor startTime maxHistoryChat n reqs t := by
  obtain ⟨es, hrun, hreqs⟩ := h
  refine ⟨_, hrun.snoc taken, ?_⟩
  have hnone : requests [(s, act)] = [] := by cases act <;> first | rfl | cases input
  rw [requests_append, hnone, List.append_nil, hreqs]

section Progress

variable {s : Service σ} (running : s.server.engine.fault = none)
include running

theorem step_listen {act : Listen.Act Nat} {listen : Listen Nat} (own : act.isOwn = true)
    (taken : s.listen.step act = some listen) :
    step vendor s (.listen act) = some { s with listen } := by
  unfold step
  simp [running, own, taken]

theorem step_work {act : CortexOnnx.Act} {server : Server σ}
    (taken : s.server.step vendor (.work act) = some server) :
    step vendor s (.work act) = some { s with server } := by
  unfold step
  simp [running, taken]

theorem step_close {thread sock left : Nat} {listen : Listen Nat}
    (serves : s.socket thread = some sock) (at_ : s.connections[sock]? = some (.reading left))
    (taken : s.listen.step (.finish thread) = some listen) : step vendor s (.close thread) =
      some { s with listen, connections := s.connections.set sock .closed } := by
  unfold step
  simp [running, serves, at_, taken]

theorem step_respond {thread sock index left : Nat} {handler : Handler}
    (serves : s.socket thread = some sock)
    (at_ : s.connections[sock]? = some (.handling index left))
    (handled : s.server.handlers[index]? = some handler) (settled : handler.isSettled = true) :
    step vendor s (.respond thread) =
      some { s with connections := s.connections.set sock (.reading left) } := by
  unfold step
  simp [running, serves, at_, handled, settled]

theorem step_proceed {thread sock index left : Nat} {handler handler' : Handler}
    (serves : s.socket thread = some sock)
    (at_ : s.connections[sock]? = some (.handling index left))
    (handled : s.server.handlers[index]? = some handler)
    (goes : handler.proceed true = some handler') : step vendor s (.proceed thread true) = some
      { s with server := { s.server with handlers := s.server.handlers.set index handler' } } := by
  unfold step
  simp [running, serves, at_, Server.step, handled, goes]

end Progress

/-- The handler of any other request goes on, once the engine has no task. -/
theorem Parts.goesOn {n : Nat} {reqs : List HttpRequest} {s : Service σ}
    (h : Parts vendor n reqs s) (unasked : reqs.countP HttpRequest.callsEmbedding = 0)
    (running : s.server.engine.fault = none) (drained : s.server.engine.alive = []) {index : Nat}
    {handler : Handler} (handled : s.server.handlers[index]? = some handler)
    (busy : handler.isSettled = false) :
    ∃ handler', handler.proceed true = some handler' ∧
      handler'.stepsLeft < handler.stepsLeft := by
  obtain ⟨hhandler, rfl⟩ := List.getElem?_eq_some_iff.mp handled
  have hreq : index < reqs.length := by
    rw [h.handles.rows.length_eq]
    exact hhandler
  obtain ⟨hattended, hkind⟩ := h.handles.rows.get hreq hhandler
  have hother : ¬(reqs.get ⟨index, hreq⟩).callsEmbedding = true :=
    List.countP_eq_zero.mp unasked _ (List.get_mem reqs _)
  rw [if_neg hother] at hkind
  exact Handler.Attended.goesOn hattended h.handles.attends.ledger running drained hkind busy

/-- While the pool is shut down somebody in the service goes on. -/
theorem exists_step {startTime : Nat} {maxHistoryChat : Int} {n : Nat} {reqs : List HttpRequest}
    {s : Service σ} (unasked : reqs.countP HttpRequest.callsEmbedding = 0)
    (reached : Reached vendor startTime maxHistoryChat n reqs s)
    (running : s.server.engine.fault = none) (drained : s.server.engine.alive = [])
    (closing : s.listen.point.closing = true) (unreturned : s.listen.point ≠ .returned) :
    ∃ act t, act.isInput = false ∧ Service.step vendor s act = some t ∧
      (t.server.engine = s.server.engine ∧ t.listen.point.closing = true) ∧
      t.stepsLeft < s.stepsLeft := by
  obtain ⟨es, hrun, rfl⟩ := reached
  have hparts := run_parts hrun
  have hopens := run_opens hrun
  obtain ⟨act, listen, htaken⟩ :=
    (Listen.closing_goesOn hparts.awake closing).resolve_left unreturned
  obtain ⟨hstill, hless⟩ := Listen.closing_step hparts.awake closing htaken
  by_cases hown : act.isOwn = true
  · refine ⟨_, _, rfl, step_listen running hown htaken, ⟨rfl, hstill⟩, ?_⟩
    rw [stepsLeft, stepsLeft]
    dsimp only
    omega
  · cases Listen.step_move htaken with
    | notified | unheard | closed | notifiedAll | joined | took | slept | left | woke =>
      exact absurd rfl hown
    | enqueued at_ | refused at_ =>
      rw [at_] at closing
      cases closing
    | @finished thread sock _ _ calls =>
      -- the thread cannot just finish: it goes on with its connection
      have hserves : s.socket thread = some sock := by
        rw [socket, calls]
        rfl
      obtain ⟨connection, hat, hopen⟩ :=
        hopens.open_of_running hparts.conserves (running_of_socket hserves)
      cases connection with
      | closed => exact absurd rfl hopen
      | reading left =>
        refine ⟨_, _, rfl, step_close running hserves hat htaken, ⟨rfl, hstill⟩, ?_⟩
        have hfewer : ((s.connections.set sock .closed).map Connection.stepsLeft).sum <
            (s.connections.map Connection.stepsLeft).sum := sum_map_set_lt hat Nat.zero_lt_one
        rw [stepsLeft, stepsLeft]
        dsimp only at hless ⊢
        omega
      | handling index left =>
        have hindex := hopens.served sock index left hat
        have hhandled := List.getElem?_eq_getElem hindex
        cases hsettled : s.server.handlers[index].isSettled with
        | true =>
          refine ⟨_, _, rfl, step_respond running hserves hat hhandled hsettled,
            ⟨rfl, closing⟩, ?_⟩
          have hfewer : ((s.connections.set sock (.reading left)).map Connection.stepsLeft).sum <
              (s.connections.map Connection.stepsLeft).sum := sum_map_set_lt hat Nat.one_lt_two
          rw [stepsLeft, stepsLeft]
          dsimp only
          omega
        | false =>
          obtain ⟨handler', hgoes, hcloser⟩ :=
            hparts.goesOn unasked running drained hhandled hsettled
          refine ⟨_, _, rfl, step_proceed running hserves hat hhandled hgoes,
            ⟨rfl, closing⟩, ?_⟩
          have hfewer : ((s.server.handlers.set index handler').map Handler.stepsLeft).sum <
              (s.server.handlers.map Handler.stepsLeft).sum := sum_map_set_lt hhandled hcloser
          rw [stepsLeft, stepsLeft, Server.stepsLeft, Server.stepsLeft]
          dsimp only
          omega

/-- The steps of the worker are steps of the service. -/
theorem run_of_workerRun {s : Service σ} {es : List (System σ × CortexOnnx.Act)}
    {engine : System σ} (hrun : Run (System.step vendor .fine) s.server.engine es engine)
    (work : EveryStep (fun _ act => act.isWork = true) es) :
    ∃ es' t, Run (Service.step vendor) s es' t ∧ EveryStep (fun _ act => act.isInput = false) es' ∧
      t.server.engine = engine ∧ t.listen = s.listen := by
  induction hrun with
  | nil => exact ⟨[], s, Run.nil, everyStep_nil, rfl, rfl⟩
  | @snoc es engine engine' act before taken ih =>
    obtain ⟨hes, hact⟩ := everyStep_snoc.mp work
    obtain ⟨es', t, hrun', hquiet, rfl, hlisten⟩ := ih hes
    have hserver := Server.step_work taken hact
    have hrunning := (Server.step_move hserver).1
    exact ⟨_, _, hrun'.snoc (step_work hrunning hserver), everyStep_snoc.mpr ⟨hquiet, rfl⟩, rfl,
      hlisten⟩

/-- The listening thread can always be made to shut its pool down. -/
theorem exists_closing {s : Service σ} (running : s.server.engine.fault = none) :
    ∃ es t, Run (Service.step vendor) s es t ∧ EveryStep (fun _ act => act.isInput = false) es ∧
      t.server = s.server ∧ t.listen.point.closing = true := by
  have hshutdown : ∀ {u : Service σ}, u.server = s.server → u.listen.point = .accepting →
      ∃ t, Service.step vendor u (.listen .shutdown) = some t ∧ t.server = s.server ∧
        t.listen.point.closing = true := by
    intro u hserver hpoint
    have hrunning : u.server.engine.fault = none := by rw [hserver, running]
    obtain ⟨listen, htaken, hclosing⟩ := Listen.shutdown_goesOn hpoint
    exact ⟨_, step_listen hrunning rfl htaken, hserver, hclosing⟩
  cases hpoint : s.listen.point with
  | accepting =>
    obtain ⟨t, htaken, hserver, hclosing⟩ := hshutdown rfl hpoint
    exact ⟨_, t, Run.nil.snoc htaken, everyStep_snoc.mpr ⟨everyStep_nil, rfl⟩, hserver, hclosing⟩
  | notifying =>
    obtain ⟨woken, listen, hnotified, haccepting⟩ := Listen.notify_goesOn hpoint
    have htaken : Service.step vendor s (.listen (.notifyOne woken)) = some { s with listen } :=
      step_listen running rfl hnotified
    obtain ⟨t, htaken', hserver, hclosing⟩ :=
      hshutdown (u := { s with listen }) rfl haccepting
    exact ⟨_, t, (Run.nil.snoc htaken).snoc htaken',
      everyStep_snoc.mpr ⟨everyStep_snoc.mpr ⟨everyStep_nil, rfl⟩, rfl⟩, hserver, hclosing⟩
  | notifyingAll | joining | returned =>
    exact ⟨[], s, Run.nil, everyStep_nil, rfl, by rw [hpoint]; rfl⟩

/-- The listening thread has returned, and no connection is open. -/
def Stopped (s : Service σ) : Prop :=
  s.listen.point = .returned ∧ ∀ connection ∈ s.connections, connection = .closed

theorem Opens.stopped {n : Nat} {reqs : List HttpRequest} {s : Service σ} (h : s.Opens)
    (parts : Parts vendor n reqs s) (staffed : 0 < n) (returned : s.listen.point = .returned) :
    s.Stopped := by
  refine ⟨returned, fun connection hmem => ?_⟩
  obtain ⟨sock, hat⟩ := List.mem_iff_getElem?.mp hmem
  have hlt : sock < s.connections.length := (List.getElem?_eq_some_iff.mp hat).1
  have hfinished := Listen.finished_of_returned staffed parts.conserves parts.awake returned
  have hclosed := (h.closed_iff sock).mpr
    (hfinished.symm.subset (h.numbered ▸ List.mem_range.mpr hlt))
  rw [hat] at hclosed
  exact Option.some.inj hclosed

/-- The listening thread waits for the threads that called `HandleEmbedding`. -/
theorem Pins.no_embeddings {n : Nat} {reqs : List HttpRequest} {s : Service σ} (h : s.Pins reqs)
    (parts : Parts vendor n reqs s) (returned : s.listen.point = .returned) :
    reqs.countP HttpRequest.callsEmbedding = 0 := by
  obtain ⟨socks, hlength, hsubperm, _⟩ := h.exists_socks
  have hexited := parts.awake.joined returned
  have hplaces := Listen.places s.listen.pool.threads
  rw [parts.conserves.size] at hplaces
  have hidle : s.listen.pool.running.length = 0 := by
    show (s.listen.pool.threads.filterMap ThreadPool.Worker.job).length = 0
    omega
  have hle := hsubperm.length_le
  omega

theorem Reached.run {startTime : Nat} {maxHistoryChat : Int} {n : Nat} {reqs : List HttpRequest}
    {es : List (Service σ × Act)} {s t : Service σ}
    (h : Reached vendor startTime maxHistoryChat n reqs s) (hrun : Run (Service.step vendor) s es t)
    (quiet : EveryStep (fun _ act => act.isInput = false) es) :
    Reached vendor startTime maxHistoryChat n reqs t := by
  induction hrun with
  | nil => exact h
  | snoc before taken ih =>
    obtain ⟨hes, hact⟩ := everyStep_snoc.mp quiet
    exact (ih hes).step hact taken

/-- With the pool shut down and no task left the service comes to its end. -/
theorem exists_returned {startTime : Nat} {maxHistoryChat : Int} {n : Nat}
    {reqs : List HttpRequest} {s : Service σ}
    (unasked : reqs.countP HttpRequest.callsEmbedding = 0)
    (reached : Reached vendor startTime maxHistoryChat n reqs s)
    (running : s.server.engine.fault = none) (drained : s.server.engine.alive = [])
    (closing : s.listen.point.closing = true) :
    ∃ es t, Run (Service.step vendor) s es t ∧ EveryStep (fun _ act => act.isInput = false) es ∧
      Reached vendor startTime maxHistoryChat n reqs t ∧ t.listen.point = .returned := by
  have hends : ∃ es t, Run (Service.step vendor) s es t ∧
      EveryStep (fun _ act => act.isInput = false) es ∧
      (Reached vendor startTime maxHistoryChat n reqs t ∧ t.server.engine.fault = none ∧
        t.server.engine.alive = [] ∧ t.listen.point.closing = true) ∧
      t.listen.point = .returned := by
    apply exists_run_of_decreasing (I := fun s =>
      Reached vendor startTime maxHistoryChat n reqs s ∧ s.server.engine.fault = none ∧
        s.server.engine.alive = [] ∧ s.listen.point.closing = true) stepsLeft ?_
        ⟨reached, running, drained, closing⟩
    rintro s ⟨hreached, hrunning, hdrained, hclosing⟩ hunreturned
    obtain ⟨act, t, hinput, htaken, ⟨hengine, hstill⟩, hless⟩ :=
      exists_step unasked hreached hrunning hdrained hclosing hunreturned
    refine ⟨act, t, hinput, htaken, ⟨hreached.step hinput htaken, ?_, ?_, hstill⟩, hless⟩
    · rw [hengine, hrunning]
    · rw [hengine, hdrained]
  obtain ⟨es, t, hrun, hes, ⟨ht, _⟩, hreturned⟩ := hends
  exact ⟨es, t, hrun, hes, ht, hreturned⟩

/-- **The service can be stopped** after any run without a fault in which no request has called
`HandleEmbedding`: with no further input all handlers end, every connection is closed and the
listening thread returns.  After a single such request it never returns, whatever comes. -/
theorem stops {startTime : Nat} {maxHistoryChat : Int} {n : Nat} (staffed : 0 < n)
    {es : List (Service σ × Act)} {t : Service σ}
    (hrun : Run (Service.step vendor) (fresh startTime maxHistoryChat n) es t)
    (running : t.server.engine.fault = none) :
    ((requests es).countP HttpRequest.callsEmbedding = 0 →
      ∃ es' u, Run (Service.step vendor) t es' u ∧
        EveryStep (fun _ act => act.isInput = false) es' ∧ u.Stopped) ∧
      (0 < (requests es).countP HttpRequest.callsEmbedding →
        ∀ es' u, Run (Service.step vendor) t es' u → u.listen.point ≠ .returned) := by
  constructor
  · intro hnone
    obtain ⟨es₁, t₁, hrun₁, hquiet₁, hserver₁, hclosing⟩ := exists_closing running
    -- first the tasks, and then the connections
    have hdrains : ∃ works engine, Run (System.step vendor .fine) t₁.server.engine works engine ∧
        EveryStep (fun _ act => act.isWork = true) works ∧
        (engine.Tracked ∧ engine.fault = none) ∧ engine.alive = [] := by
      rw [hserver₁]
      exact System.exists_drained (run_parts hrun).handles.attends.tracked running
    obtain ⟨works, engine, hworks, hwork, ⟨_, hrunning⟩, hdrained⟩ := hdrains
    obtain ⟨es₂, t₂, hrun₂, hquiet₂, rfl, hlisten⟩ := run_of_workerRun hworks hwork
    have hreached : Reached vendor startTime maxHistoryChat n (requests es) t₂ :=
      (Reached.run ⟨es, hrun, rfl⟩ hrun₁ hquiet₁).run hrun₂ hquiet₂
    have hclosing₂ : t₂.listen.point.closing = true := by rw [hlisten, hclosing]
    obtain ⟨es₃, u, hrun₃, hquiet₃, ⟨all, hall, _⟩, hreturned⟩ :=
      exists_returned hnone hreached hrunning hdrained hclosing₂
    refine ⟨_, u, (hrun₁.append hrun₂).append hrun₃, ?_,
      (run_opens hall).stopped (run_parts hall) staffed hreturned⟩
    exact everyStep_append (everyStep_append hquiet₁ hquiet₂) hquiet₃
  · intro hasked es' u hrun' hreturned
    have hwhole := hrun.append hrun'
    have hnone := (run_pins hwhole).no_embeddings (run_parts hwhole) hreturned
    rw [requests_append, List.countP_append] at hnone
    omega

/-- A stream is on its way on a connection that has made a request before. -/
def midStream : List Act :=
  [.accept, .listen (.notifyOne 0), .listen (.lock 0),
    .request 0 ⟨.loadModel, .ok (loadRequest "m")⟩ {},
    .respond 0, .request 0 ⟨.completions, .ok (chatRequest true "x")⟩ {}, .work (.start {}),
    .work (.iterate { token := 104 }), .proceed 0 true, .accept]

theorem stops_midStream : ∃ t es' u,
    execute (Service.step utf8Vendor) (fresh 0 0 5) midStream = some t ∧
      Run (Service.step utf8Vendor) t es' u ∧
      EveryStep (fun _ act => act.isInput = false) es' ∧ u.Stopped := by
  have hruns : (execute (Service.step utf8Vendor) (fresh 0 0 5) midStream).any
      (fun t => t.server.engine.fault.isNone) = true := by decide
  obtain ⟨t, hexecute, hrun, hrunning⟩ := exists_run_of_execute hruns
  have hunasked : (requests (trace (Service.step utf8Vendor) (fresh 0 0 5) midStream)).countP
      HttpRequest.callsEmbedding = 0 := by decide
  obtain ⟨es', u, hstops⟩ := (stops (by decide) hrun (by simpa using hrunning)).1 hunasked
  exact ⟨t, es', u, hexecute, hstops⟩

end Service

end CortexOnnx
