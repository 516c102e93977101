import CortexOnnx.Server.Settled
import CortexOnnx.Server.ThreadPool

/-!
# The service

The handlers of the server on the threads of its pool.  A thread serves one connection at a time,
and its requests one after the other, so a handler that never returns keeps its thread.
-/

namespace CortexOnnx

variable {σ : Type} {vendor : Vendor σ}

/-- `CPPHTTPLIB_KEEPALIVE_MAX_COUNT` -/
def keepAliveMaxCount : Nat := 5

/-- A connection: it may still make `left` requests, one of its requests is with the handler at
`index`, or it is closed. -/
inductive Connection where
  | reading (left : Nat)
  | handling (index left : Nat)
  | closed
  deriving DecidableEq

/-- The server, the pool, whose jobs are sockets, and the connections by socket. -/
structure Service (σ : Type) where
  server : Server σ
  listen : Listen Nat
  connections : List Connection

namespace Service

inductive Act where
  | accept
  | listen (act : Listen.Act Nat)
  | request (thread : Nat) (req : HttpRequest) (env : Env)
  | work (act : CortexOnnx.Act)
  | proceed (thread : Nat) (writable : Bool)
  | respond (thread : Nat)
  | close (thread : Nat)

/-- The socket that a thread serves. -/
def socket (s : Service σ) (thread : Nat) : Option Nat :=
  s.listen.pool.threads[thread]?.bind ThreadPool.Worker.job

end Service

/-- The steps that do not depend on a connection. -/
def Listen.Act.isOwn {α : Type} : Listen.Act α → Bool
  | .enqueue _ | .finish _ => false
  | .notifyOne _ | .shutdown | .notifyAll | .join | .lock _ | .wake _ => true

namespace Service

variable (vendor) in
/-- The steps of `process_and_close_socket` on its thread, those of the listening thread, and those
of the engine's worker.  A fault of the engine ends them all. -/
def step (s : Service σ) (act : Act) : Option (Service σ) :=
  if s.server.engine.fault.isSome then none
  else
    match act with
    | .accept =>
        (s.listen.step (.enqueue s.connections.length)).map fun listen =>
          { s with listen, connections := s.connections ++ [.reading keepAliveMaxCount] }
    | .listen act =>
        if act.isOwn then (s.listen.step act).map fun listen => { s with listen } else none
    | .request thread req env => do
        let sock ← s.socket thread
        match s.connections[sock]? with
        | some (.reading (left + 1)) =>
            let server ← s.server.step vendor (.request req env)
            return { s with
              server
              connections := s.connections.set sock (.handling s.server.handlers.length left) }
        | _ => none
    | .work act => (s.server.step vendor (.work act)).map fun server => { s with server }
    | .proceed thread writable => do
        let sock ← s.socket thread
        match s.connections[sock]? with
        | some (.handling index _) =>
            (s.server.step vendor (.proceed index writable)).map fun server => { s with server }
        | _ => none
    | .respond thread => do
        let sock ← s.socket thread
        match s.connections[sock]? with
        | some (.handling index left) =>
            let handler ← s.server.handlers[index]?
            -- the provider is not called where the stream is not writable, the server shuts down,
            -- or the request asks for ranges
            if handler.isSettled || handler.isUncalled then
              return { s with connections := s.connections.set sock (.reading left) }
            else none
        | _ => none
    -- no further request came, the client closed the connection, or its requests are used up
    | .close thread => do
        let sock ← s.socket thread
        match s.connections[sock]? with
        | some (.reading _) =>
            let listen ← s.listen.step (.finish thread)
            return { s with listen, connections := s.connections.set sock .closed }
        | _ => none

/-- The service of `main`, with a pool of `n` threads and no limit on the queue. -/
def fresh (startTime : Nat) (maxHistoryChat : Int) (n : Nat) : Service σ where
  server := .fresh startTime maxHistoryChat
  listen := .start n 0
  connections := []

/-! ## What a step does -/

/-- A step with the state that it leads to. -/
inductive Move (vendor : Vendor σ) (s : Service σ) : Act → Service σ → Prop
  | accepted {listen : Listen Nat}
      (taken : s.listen.step (.enqueue s.connections.length) = some listen) :
      Move vendor s .accept
        { s with listen, connections := s.connections ++ [.reading keepAliveMaxCount] }
  | listened {act : Listen.Act Nat} {listen : Listen Nat} (own : act.isOwn = true)
      (taken : s.listen.step act = some listen) : Move vendor s (.listen act) { s with listen }
  | requested {thread : Nat} {req : HttpRequest} {env : Env} {sock left : Nat} {server : Server σ}
      (serves : s.socket thread = some sock)
      (at_ : s.connections[sock]? = some (.reading (left + 1)))
      (taken : s.server.step vendor (.request req env) = some server) :
      Move vendor s (.request thread req env) { s with
        server
        connections := s.connections.set sock (.handling s.server.handlers.length left) }
  | worked {act : CortexOnnx.Act} {server : Server σ}
      (taken : s.server.step vendor (.work act) = some server) :
      Move vendor s (.work act) { s with server }
  | proceeded {thread : Nat} {writable : Bool} {sock index left : Nat} {server : Server σ}
      (serves : s.socket thread = some sock)
      (at_ : s.connections[sock]? = some (.handling index left))
      (taken : s.server.step vendor (.proceed index writable) = some server) :
      Move vendor s (.proceed thread writable) { s with server }
  | responded {thread sock index left : Nat} {handler : Handler}
      (serves : s.socket thread = some sock)
      (at_ : s.connections[sock]? = some (.handling index left))
      (handled : s.server.handlers[index]? = some handler)
      (ends : (handler.isSettled || handler.isUncalled) = true) :
      Move vendor s (.respond thread)
        { s with connections := s.connections.set sock (.reading left) }
  | closed {thread sock left : Nat} {listen : Listen Nat} (serves : s.socket thread = some sock)
      (at_ : s.connections[sock]? = some (.reading left))
      (taken : s.listen.step (.finish thread) = some listen) :
      Move vendor s (.close thread)
        { s with listen, connections := s.connections.set sock .closed }

theorem step_move {s t : Service σ} {act : Act} (taken : step vendor s act = some t) :
    s.server.engine.fault = none ∧ Move vendor s act t := by
  unfold step at taken
  split at taken
  · cases taken
  · rename_i hfault
    refine ⟨by simpa using hfault, ?_⟩
    cases act with
    | accept =>
      obtain ⟨listen, hlisten, rfl⟩ := Option.map_eq_some_iff.mp taken
      exact .accepted hlisten
    | listen act =>
      by_cases hown : act.isOwn = true
      · dsimp only at taken
        rw [if_pos hown] at taken
        obtain ⟨listen, hlisten, rfl⟩ := Option.map_eq_some_iff.mp taken
        exact .listened hown hlisten
      · dsimp only at taken
        rw [if_neg hown] at taken
        cases taken
    | request thread req env =>
      obtain ⟨sock, hserves, taken⟩ := Option.bind_eq_some_iff.mp taken
      split at taken
      · rename_i left hat
        obtain ⟨server, hserver, taken⟩ := Option.bind_eq_some_iff.mp taken
        cases taken
        exact .requested hserves hat hserver
      · cases taken
    | work act =>
      obtain ⟨server, hserver, rfl⟩ := Option.map_eq_some_iff.mp taken
      exact .worked hserver
    | proceed thread writable =>
      obtain ⟨sock, hserves, taken⟩ := Option.bind_eq_some_iff.mp taken
      split at taken
      · rename_i index left hat
        obtain ⟨server, hserver, rfl⟩ := Option.map_eq_some_iff.mp taken
        exact .proceeded hserves hat hserver
      · cases taken
    | respond thread =>
      obtain ⟨sock, hserves, taken⟩ := Option.bind_eq_some_iff.mp taken
      split at taken
      · rename_i index left hat
        obtain ⟨handler, hhandler, taken⟩ := Option.bind_eq_some_iff.mp taken
        split at taken
        · rename_i hends
          cases taken
          exact .responded hserves hat hhandler hends
        · cases taken
      · cases taken
    | close thread =>
      obtain ⟨sock, hserves, taken⟩ := Option.bind_eq_some_iff.mp taken
      split at taken
      · rename_i left hat
        obtain ⟨listen, hlisten, taken⟩ := Option.bind_eq_some_iff.mp taken
        cases taken
        exact .closed hserves hat hlisten
      · cases taken

/-! ## The components -/

/-- The step of the server within a step of the service. -/
def onServer (s : Service σ) : Act → Option Server.Act
  | .request _ req env => some (.request req env)
  | .work act => some (.work act)
  | .proceed thread writable =>
      match (s.socket thread).bind fun sock => s.connections[sock]? with
      | some (.handling index _) => some (.proceed index writable)
      | _ => none
  | .accept | .listen _ | .respond _ | .close _ => none

/-- The step of the pool within a step of the service. -/
def onListen (s : Service σ) : Act → Option (Listen.Act Nat)
  | .accept => some (.enqueue s.connections.length)
  | .listen act => some act
  | .close thread => some (.finish thread)
  | .request _ _ _ | .work _ | .proceed _ _ | .respond _ => none

theorem projects_server :
    Projects (step vendor) (Server.step vendor) ((Service.server : Service σ → _)) onServer := by
  intro s act t htaken
  cases (step_move htaken).2 with
  | accepted | listened | responded | closed => rfl
  | requested serves at_ taken => exact taken
  | worked taken => exact taken
  | proceeded serves at_ taken =>
    rw [onServer, serves, Option.bind_some, at_]
    exact taken

theorem projects_listen :
    Projects (step vendor) Listen.step ((Service.listen : Service σ → _)) onListen := by
  intro s act t htaken
  cases (step_move htaken).2 with
  | requested | worked | proceeded | responded => rfl
  | accepted taken => exact taken
  | listened own taken => exact taken
  | closed serves at_ taken => exact taken

/-- The request of a step. -/
def Act.request? : Act → Option HttpRequest
  | .request _ req _ => some req
  | _ => none

/-- The requests of a run, in order. -/
def requests (es : List (Service σ × Act)) : List HttpRequest := es.filterMap (·.2.request?)

theorem requests_projected (es : List (Service σ × Act)) :
    Server.requests (projected Service.server onServer es) = requests es := by
  rw [Server.requests, projected, List.filterMap_filterMap, requests]
  apply List.filterMap_congr
  rintro ⟨s, act⟩ _
  cases act with
  | proceed thread writable =>
    dsimp only [onServer]
    split <;> rfl
  | accept | listen | request | work | respond | close => rfl

/-- What is known of the server and of the pool alone. -/
structure Parts (vendor : Vendor σ) (n : Nat) (reqs : List HttpRequest) (s : Service σ) :
    Prop where
  handles : s.server.Handles vendor reqs
  conserves : s.listen.Conserves n 0
  awake : s.listen.Awake n

theorem run_parts {startTime : Nat} {maxHistoryChat : Int} {n : Nat}
    {es : List (Service σ × Act)} {t : Service σ}
    (hrun : Run (step vendor) (fresh startTime maxHistoryChat n) es t) :
    Parts vendor n (requests es) t := by
  have hserver := Server.run_handles (hrun.project projects_server)
  obtain ⟨hconserves, hawake⟩ := Listen.run_invariants (hrun.project projects_listen)
  rw [requests_projected] at hserver
  exact ⟨hserver, hconserves, hawake⟩

/-! ## Threads that never come back -/

theorem thread_of_socket {s : Service σ} {thread sock : Nat} (h : s.socket thread = some sock) :
    s.listen.pool.threads[thread]? = some (.running sock) := by
  obtain ⟨worker, hworker, hjob⟩ := Option.bind_eq_some_iff.mp h
  cases worker <;> cases hjob
  exact hworker

theorem running_of_socket {s : Service σ} {thread sock : Nat} (h : s.socket thread = some sock) :
    sock ∈ s.listen.pool.running :=
  List.mem_filterMap.mpr ⟨_, List.mem_of_getElem? (thread_of_socket h), rfl⟩

/-- The connection is with the handler of a request that called `HandleEmbedding`. -/
def Pinned (reqs : List HttpRequest) (connections : List Connection) (sock : Nat) : Prop :=
  ∃ index left req, connections[sock]? = some (.handling index left) ∧
    reqs[index]? = some req ∧ req.callsEmbedding = true

/-- A connection that has just been accepted is not yet with a handler, nor closed. -/
theorem getElem?_of_opened {connections : List Connection} {left sock : Nat}
    {connection : Connection} (h : (connections ++ [.reading left])[sock]? = some connection)
    (hne : connection ≠ .reading left) : connections[sock]? = some connection := by
  by_cases hlt : sock < connections.length
  · rwa [List.getElem?_append_left hlt] at h
  · rw [List.getElem?_append_right (Nat.le_of_not_lt hlt)] at h
    cases hnew : sock - connections.length with
    | zero =>
      rw [hnew] at h
      cases h
      exact absurd rfl hne
    | succ k =>
      rw [hnew] at h
      cases h

/-- A connection that is with a handler has a thread, and every request that called
`HandleEmbedding` keeps a connection of its own. -/
structure Pins (reqs : List HttpRequest) (s : Service σ) : Prop where
  owned : ∀ sock index left, s.connections[sock]? = some (.handling index left) →
    sock ∈ s.listen.pool.running
  pinned : ∃ socks : List Nat, socks.Nodup ∧ socks.length = reqs.countP HttpRequest.callsEmbedding ∧
    ∀ sock ∈ socks, Pinned reqs s.connections sock

/-- Another connection changes. -/
theorem Pinned.set {reqs : List HttpRequest} {connections : List Connection} {sock other : Nat}
    (h : Pinned reqs connections other) (hne : sock ≠ other) (more : List HttpRequest)
    (connection : Connection) : Pinned (reqs ++ more) (connections.set sock connection) other := by
  obtain ⟨index, left, req, hat, hreq, hembeddings⟩ := h
  refine ⟨index, left, req, ?_, ?_, hembeddings⟩
  · rw [List.getElem?_set_ne hne]
    exact hat
  · obtain ⟨hindex, _⟩ := List.getElem?_eq_some_iff.mp hreq
    rw [List.getElem?_append_left hindex]
    exact hreq

/-- A connection that could make a request, or is done, is not with a handler for good. -/
theorem Pinned.ne {reqs : List HttpRequest} {connections : List Connection} {sock other left : Nat}
    (h : Pinned reqs connections other) (at_ : connections[sock]? = some (.reading left)) :
    sock ≠ other := by
  rintro rfl
  obtain ⟨index, left', req, hat, _⟩ := h
  rw [at_] at hat
  cases hat

/-- The handler of such a request has not ended, and it is not a provider. -/
theorem Parts.embeddings_stays {n : Nat} {reqs : List HttpRequest} {s : Service σ}
    (h : Parts vendor n reqs s) {index : Nat} {req : HttpRequest} {handler : Handler}
    (asked : reqs[index]? = some req) (embeddings : req.callsEmbedding = true)
    (handled : s.server.handlers[index]? = some handler) :
    (handler.isSettled || handler.isUncalled) = false := by
  obtain ⟨hreq, rfl⟩ := List.getElem?_eq_some_iff.mp asked
  obtain ⟨hhandler, rfl⟩ := List.getElem?_eq_some_iff.mp handled
  have hrow := (h.handles.rows.get hreq hhandler).2
  have hkind : (reqs.get ⟨index, hreq⟩).callsEmbedding = true := embeddings
  rw [if_pos hkind] at hrow
  obtain ⟨id, hpopping, _⟩ := hrow
  have hat : s.server.handlers[index] = .popping id { q := [] } := hpopping
  rw [hat]
  rfl

theorem Pins.step {n : Nat} {reqs : List HttpRequest} {s t : Service σ} {act : Act}
    (h : s.Pins reqs) (parts : Parts vendor n reqs s) (taken : Service.step vendor s act = some t) :
    t.Pins (reqs ++ act.request?.toList) := by
  obtain ⟨howned, socks, hnodup, hlength, hpinned⟩ := h
  have hsame : ∀ {act : Act}, act.request? = none → reqs ++ act.request?.toList = reqs := by
    intro act hnone
    rw [hnone]
    exact List.append_nil reqs
  cases (step_move taken).2 with
  | accepted goes =>
    rw [hsame rfl]
    refine ⟨fun sock index left hat => ?_, socks, hnodup, hlength, fun sock hsock => ?_⟩
    · have hold := getElem?_of_opened hat (by simp)
      rcases Listen.running_kept goes (howned sock index left hold) with hkept | ⟨i, hact, _⟩
      · exact hkept
      · cases hact
    · obtain ⟨index, left, req, hat, hreq⟩ := hpinned sock hsock
      have hlt : sock < s.connections.length := (List.getElem?_eq_some_iff.mp hat).1
      exact ⟨index, left, req, (List.getElem?_append_left hlt).trans hat, hreq⟩
  | listened own goes =>
    rw [hsame rfl]
    refine ⟨fun sock index left hat => ?_, socks, hnodup, hlength, hpinned⟩
    rcases Listen.running_kept goes (howned sock index left hat) with hkept | ⟨i, rfl, _⟩
    · exact hkept
    · cases own
  | @requested thread req env sock left server serves at_ goes =>
    have hindex : s.server.handlers.length = reqs.length := parts.handles.rows.length_eq.symm
    have hlt : sock < s.connections.length := (List.getElem?_eq_some_iff.mp at_).1
    refine ⟨fun other index left' hat => ?_, ?_⟩
    · by_cases hother : sock = other
      · subst hother
        exact running_of_socket serves
      · rw [List.getElem?_set_ne hother] at hat
        exact howned other index left' hat
    · show ∃ socks' : List Nat, socks'.Nodup ∧
        socks'.length = (reqs ++ [req]).countP HttpRequest.callsEmbedding ∧
          ∀ other ∈ socks', Pinned (reqs ++ [req]) (s.connections.set sock _) other
      have hkept := fun other hother =>
        (hpinned other hother).set ((hpinned other hother).ne at_) [req]
          (.handling s.server.handlers.length left)
      rw [List.countP_append, List.countP_singleton]
      cases hembeddings : req.callsEmbedding with
      | false => exact ⟨socks, hnodup, hlength, hkept⟩
      | true =>
        -- its own connection joins the others
        have hfresh : sock ∉ socks := fun hmem => (hpinned sock hmem).ne at_ rfl
        refine ⟨sock :: socks, List.nodup_cons.mpr ⟨hfresh, hnodup⟩, ?_, fun other hother => ?_⟩
        · rw [List.length_cons, hlength]
          rfl
        · rcases List.mem_cons.mp hother with rfl | hold
          · refine ⟨_, left, req, List.getElem?_set_self hlt, ?_, hembeddings⟩
            rw [hindex]
            exact List.getElem?_concat_length
          · exact hkept other hold
  | worked goes =>
    rw [hsame rfl]
    exact ⟨howned, socks, hnodup, hlength, hpinned⟩
  | proceeded serves at_ goes =>
    rw [hsame rfl]
    exact ⟨howned, socks, hnodup, hlength, hpinned⟩
  | @responded thread sock index left handler serves at_ handled ends =>
    rw [hsame rfl]
    have hlt : sock < s.connections.length := (List.getElem?_eq_some_iff.mp at_).1
    refine ⟨fun other index' left' hat => ?_, socks, hnodup, hlength, fun other hother => ?_⟩
    · by_cases hother : sock = other
      · subst hother
        rw [List.getElem?_set_self hlt] at hat
        cases hat
      · rw [List.getElem?_set_ne hother] at hat
        exact howned other index' left' hat
    · have hpin := hpinned other hother
      have hne : sock ≠ other := by
        rintro rfl
        obtain ⟨index', left', req, hat, hreq, hembeddings⟩ := hpin
        rw [at_] at hat
        cases hat
        rw [parts.embeddings_stays hreq hembeddings handled] at ends
        cases ends
      have hset := hpin.set hne [] (.reading left)
      rwa [List.append_nil] at hset
  | @closed thread sock left listen serves at_ goes =>
    rw [hsame rfl]
    have hlt : sock < s.connections.length := (List.getElem?_eq_some_iff.mp at_).1
    refine ⟨fun other index' left' hat => ?_, socks, hnodup, hlength, fun other hother => ?_⟩
    · by_cases hother : sock = other
      · subst hother
        rw [List.getElem?_set_self hlt] at hat
        cases hat
      · rw [List.getElem?_set_ne hother] at hat
        rcases Listen.running_kept goes (howned other index' left' hat) with
          hkept | ⟨i, hact, hcalls⟩
        · exact hkept
        · cases hact
          rw [thread_of_socket serves] at hcalls
          cases hcalls
          exact absurd rfl hother
    · have hset := (hpinned other hother).set ((hpinned other hother).ne at_) [] .closed
      rwa [List.append_nil] at hset

theorem run_pins {startTime : Nat} {maxHistoryChat : Int} {n : Nat}
    {es : List (Service σ × Act)} {t : Service σ}
    (hrun : Run (Service.step vendor) (fresh startTime maxHistoryChat n) es t) :
    t.Pins (requests es) := by
  induction hrun with
  | nil =>
    refine ⟨fun sock index left hat => ?_, [], List.nodup_nil, rfl, fun _ h => ?_⟩
    · cases hat
    · exact absurd h List.not_mem_nil
  | @snoc es s t act before taken ih =>
    have hstep := ih.step (run_parts before) taken
    have hone : requests (es ++ [(s, act)]) = requests es ++ act.request?.toList := by
      rw [requests, List.filterMap_append, List.filterMap_cons, List.filterMap_nil]
      cases act.request? <;> rfl
    rw [hone]
    exact hstep

theorem requests_append (es es' : List (Service σ × Act)) :
    requests (es ++ es') = requests es ++ requests es' := by
  rw [requests, requests, requests, List.filterMap_append]

/-- The connections that such requests keep are among those that are served. -/
theorem Pins.exists_socks {reqs : List HttpRequest} {s : Service σ} (h : s.Pins reqs) :
    ∃ socks : List Nat, socks.length = reqs.countP HttpRequest.callsEmbedding ∧
      socks.Subperm s.listen.pool.running ∧ ∀ sock ∈ socks, Pinned reqs s.connections sock := by
  obtain ⟨howned, socks, hnodup, hlength, hpinned⟩ := h
  refine ⟨socks, hlength, List.subperm_of_subset hnodup fun sock hsock => ?_, hpinned⟩
  obtain ⟨index, left, _, hat, _⟩ := hpinned sock hsock
  exact howned sock index left hat

theorem Pins.embeddings_le {n : Nat} {reqs : List HttpRequest} {s : Service σ} (h : s.Pins reqs)
    (parts : Parts vendor n reqs s) : reqs.countP HttpRequest.callsEmbedding ≤ n := by
  obtain ⟨socks, hlength, hsubperm, _⟩ := h.exists_socks
  rw [← hlength]
  exact Nat.le_trans hsubperm.length_le parts.conserves.running_le

/-- With every thread on such a request no further request is read. -/
theorem Pins.no_request {n : Nat} {reqs : List HttpRequest} {s t : Service σ} {act : Act}
    (h : s.Pins reqs) (parts : Parts vendor n reqs s)
    (full : reqs.countP HttpRequest.callsEmbedding = n)
    (taken : Service.step vendor s act = some t) : act.request? = none := by
  cases (step_move taken).2 with
  | accepted | listened | worked | proceeded | responded | closed => rfl
  | requested serves at_ goes =>
    obtain ⟨socks, hlength, hsubperm, hpinned⟩ := h.exists_socks
    have hsame : socks.Perm s.listen.pool.running := by
      apply hsubperm.perm_of_length_le
      rw [hlength, full]
      exact parts.conserves.running_le
    have hmem := hsame.symm.subset (running_of_socket serves)
    exact absurd rfl ((hpinned _ hmem).ne at_)

/-- **The embeddings route takes the service down**, whatever else happens.  No more than `n`
requests ever call `HandleEmbedding`, and after `n` of them the service reads no request at all. -/
theorem embeddings_exhaust {startTime : Nat} {maxHistoryChat : Int} {n : Nat}
    {es : List (Service σ × Act)} {t : Service σ}
    (hrun : Run (Service.step vendor) (fresh startTime maxHistoryChat n) es t) :
    (requests es).countP HttpRequest.callsEmbedding ≤ n ∧
      ((requests es).countP HttpRequest.callsEmbedding = n →
        ∀ es' u, Run (Service.step vendor) t es' u → requests es' = []) := by
  refine ⟨(run_pins hrun).embeddings_le (run_parts hrun), fun full es' u hrun' => ?_⟩
  induction hrun' with
  | nil => rfl
  | @snoc es' s u act before taken ih =>
    have hwhole := hrun.append before
    have hpins := run_pins hwhole
    have hparts := run_parts hwhole
    rw [requests_append, ih, List.append_nil] at hpins hparts
    have hnone := hpins.no_request hparts full taken
    rw [requests_append, ih, requests, List.filterMap_cons, hnone]
    rfl

/-- A connection for each of the five threads, with two embeddings requests: one whose body is not
parsed, and one whose body is. -/
def fiveEmbeddings : List Act :=
  (List.range 5).flatMap fun thread =>
    [.accept, .listen (.notifyOne 0), .listen (.lock thread),
      .request thread ⟨.embeddings, .error "Exceeded stackLimit in readValue()."⟩ {},
      .respond thread, .request thread ⟨.embeddings, .ok .null⟩ {}]

theorem embeddings_exhaust_five : ∃ es t,
    Run (Service.step utf8Vendor) (fresh 0 0 5) es t ∧
      (requests es).countP HttpRequest.callsEmbedding = 5 ∧
      ∀ es' u, Run (Service.step utf8Vendor) t es' u → requests es' = [] := by
  have hruns : (execute (Service.step utf8Vendor) (fresh 0 0 5) fiveEmbeddings).any
      (fun t => t.server.engine.fault.isNone) = true := by decide
  obtain ⟨t, _, hrun, _⟩ := exists_run_of_execute hruns
  have hfull : (requests (trace (Service.step utf8Vendor) (fresh 0 0 5) fiveEmbeddings)).countP
      HttpRequest.callsEmbedding = 5 := by decide
  exact ⟨_, t, hrun, hfull, (embeddings_exhaust hrun).2 hfull⟩

end Service

end CortexOnnx
