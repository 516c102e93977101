import CortexOnnx.Server.HttpResponse

/-!
# What a client gets on a connection

The responses of the handlers, one after the other on a connection that is kept open.  The client
reads them in their order, each with the status and the body that its handler gave, or with what the
ranges of the request have made of them, as far as the connection carries.  A range that `substr`
refuses ends the process instead.
-/

namespace CortexOnnx

variable {σ : Type} {vendor : Vendor σ}

/-! ## Status codes -/

/-- The status codes that the engine gives. -/
def statusCodes : List Int := [k200OK, k409Conflict, k500InternalServerError]

/-- A step tells nothing with another status code. -/
theorem System.Transition.codes {s t : System σ} {act : Act}
    (ht : System.Transition vendor s act t) :
    ∀ reply ∈ replies (s.since t.log), reply.1.statusCode ∈ statusCodes := by
  -- a task that throws has used the handles at most
  have hcaught : ∀ {uses : List Event} {id : Nat}, s.engine.MayUse id uses →
      ∀ reply ∈ replies (uses ++ failedEvents id), reply.1.statusCode ∈ statusCodes := by
    intro uses id used reply hreply
    obtain ⟨epoch, huses⟩ := used.uses
    rw [replies_append, (uses_quiet huses).1] at hreply
    cases List.mem_singleton.mp hreply
    decide
  have hone : ∀ {events : List Event} {status : Status} {body : Json},
      replies events = [(status, body)] → status.statusCode ∈ statusCodes →
      ∀ reply ∈ replies events, reply.1.statusCode ∈ statusCodes := by
    intro events status body honly hcode reply hreply
    rw [honly] at hreply
    rw [List.mem_singleton.mp hreply]
    exact hcode
  have hnone : ∀ {events : List Event}, replies events = [] →
      ∀ reply ∈ replies events, reply.1.statusCode ∈ statusCodes := by
    intro events hquiet reply hreply
    rw [hquiet] at hreply
    exact absurd hreply List.not_mem_nil
  cases ht with
  | loadFailed reads throws told =>
    rw [System.answer_log, System.since_append]
    rcases told with rfl | rfl
    · exact hone rfl (by decide)
    · intro reply hreply
      have htwo : replies ([loadedReply s.next] ++ [.loadFailed, loadFailedReply s.next]) =
        [(.ok, messageBody "Model loaded successfully"),
          (.failure k500InternalServerError, messageBody "Failed to load model")] := rfl
      rw [htwo] at hreply
      rcases List.mem_cons.mp hreply with rfl | hreply
      · decide
      · rw [List.mem_singleton.mp hreply]
        decide
  | loaded | unloadRefused | unloaded | chatRefused | modelStatus | models =>
    rw [System.answer_log, System.since_append]
    exact hone rfl (by decide)
  | loadThrew | chatThrew | chatQueued | embedding =>
    rw [System.answer_log, System.since_append]
    exact hnone rfl
  | generated | turned | leftUnloaded | finished =>
    rw [System.moves_log, System.since_append]
    exact hone rfl (by decide)
  | streamStarted | loopLeft | leftLoaded | tornDown | fastEnough | reloaded =>
    rw [System.moves_log, System.since_append]
    exact hnone rfl
  | chatFaulted | startFaulted | turnFaulted =>
    rw [System.crashes_log, System.since_append]
    exact hnone rfl
  | generateFaulted idle queues holds whole succeeds used =>
    obtain ⟨epoch, huses⟩ := used.uses
    rw [System.crashes_log, System.since_append]
    exact hnone (uses_quiet huses).1
  | startFailed idle queues throws used =>
    rw [System.moves_log, System.since_append]
    exact hcaught used
  | turnFailed at_ throws used =>
    rw [System.moves_log, System.since_append]
    exact hcaught used
  | @reloadFailed env task =>
    rw [System.moves_log, System.since_append]
    exact hone rfl (by decide)

/-- What a handler answers with has one of these codes. -/
def Handler.Coded : Handler → Prop
  | .popping _ q => ∀ item ∈ q.q, item.1.statusCode ∈ statusCodes
  | .responded resp => ∀ r ∈ resp, r.status ∈ statusCodes
  | .failed | .providing _ _ => True

section Coded

variable {events : List Event} (h : ∀ reply ∈ replies events, reply.1.statusCode ∈ statusCodes)
include h

theorem codes_about (id : Nat) :
    ∀ reply ∈ replies (about Event.subject? id events), reply.1.statusCode ∈ statusCodes := by
  intro reply hreply
  obtain ⟨event, hevent, htold⟩ := List.mem_filterMap.mp hreply
  exact h reply (List.mem_filterMap.mpr ⟨event, (mem_about.mp hevent).1, htold⟩)

theorem Handler.Coded.deliver {handler : Handler} (coded : handler.Coded) :
    (handler.deliver events).Coded := by
  cases handler with
  | failed | providing => trivial
  | responded resp => exact coded
  | popping id q =>
    show ∀ item ∈ (q.pushAll _).q, _
    rw [SyncQueue.pushAll_q]
    intro item hitem
    rcases List.mem_append.mp hitem with hold | hnew
    · exact coded item hold
    · exact codes_about h id item hnew

theorem coded_afterCall (route : Route) (isStream : Bool) (id : Nat) :
    (Handler.afterCall route isStream id events).Coded := by
  have htold := codes_about h id
  have hpopping : (Handler.popping id (SyncQueue.pushAll { q := [] }
      (replies (about Event.subject? id events)))).Coded := by
    show ∀ item ∈ (SyncQueue.pushAll _ _).q, _
    rw [SyncQueue.pushAll_q]
    exact htold
  have hresponded : (Handler.responded
      ((replies (about Event.subject? id events)).getLast?.map Response.ofReply)).Coded := by
    intro r hr
    obtain ⟨reply, hlast, rfl⟩ := Option.map_eq_some_iff.mp hr
    exact htold reply (List.mem_of_getLast? hlast)
  unfold Handler.afterCall
  dsimp only
  split
  · trivial
  · cases route with
    | completions =>
      dsimp only
      split
      · trivial
      · exact hpopping
    | embeddings => exact hpopping
    | loadModel | unloadModel | getModelStatus | getRunningModels => exact hresponded

end Coded

theorem Handler.Coded.proceed {handler handler' : Handler} {writable : Bool}
    (coded : handler.Coded) (steps : handler.proceed writable = some handler') :
    handler'.Coded := by
  cases handler with
  | failed | responded => cases steps
  | popping id q =>
    obtain ⟨popped, hpop, rfl⟩ := Option.map_eq_some_iff.mp steps
    intro r hr
    cases hr
    rw [SyncQueue.waitAndPop] at hpop
    split at hpop
    · cases hpop
    · rename_i res rest hq
      cases hpop
      exact coded res (by rw [hq]; exact List.mem_cons_self)
  | providing id provider =>
    obtain ⟨provider', _, rfl⟩ := Option.map_eq_some_iff.mp steps
    trivial

theorem Server.run_coded {startTime : Nat} {maxHistoryChat : Int}
    {es : List (Server σ × Server.Act)} {t : Server σ}
    (hrun : Run (Server.step vendor) (Server.fresh startTime maxHistoryChat) es t) :
    ∀ handler ∈ t.handlers, handler.Coded := by
  induction hrun with
  | nil => exact fun _ h => absurd h List.not_mem_nil
  | snoc before taken ih =>
    have hattends := Server.run_attends before
    obtain ⟨_, hmove⟩ := Server.step_move taken
    cases hmove with
    | unread opening =>
      intro handler hhandler
      rcases List.mem_append.mp hhandler with hold | hnew
      · exact ih handler hold
      · rw [List.mem_singleton.mp hnew]
        trivial
    | called opening called =>
      have hcodes := (hattends.tracked.transition called).codes
      intro handler hhandler
      rcases List.mem_append.mp hhandler with hold | hnew
      · obtain ⟨earlier, hearlier, rfl⟩ := List.mem_map.mp hold
        exact (ih earlier hearlier).deliver hcodes
      · rw [List.mem_singleton.mp hnew]
        exact coded_afterCall hcodes _ _ _
    | worked worked =>
      have hcodes := (hattends.tracked.transition worked).codes
      intro handler hhandler
      obtain ⟨earlier, hearlier, rfl⟩ := List.mem_map.mp hhandler
      exact (ih earlier hearlier).deliver hcodes
    | proceeded at_ goes =>
      intro other hother
      rcases List.mem_or_eq_of_mem_set hother with hold | rfl
      · exact ih other hold
      · exact (ih _ (List.mem_of_getElem? at_)).proceed goes

/-! ## From a handler to its response -/

/-- The response as every handler begins it. -/
def HttpResponse.begun (req : RequestHead) : HttpResponse :=
  initial.setHeader "Access-Control-Allow-Origin" (req.headers.getHeaderValue (utf8 "Origin"))

def jsonType : String := "application/json; charset=utf-8"

namespace Handler

variable (toStyledString : Json → Bytes)

/-- What a handler that has come to its end leaves to `process_request`.  The text of its exception
is the library's.  An exception comes before any callback, so no content is set then.  A content
provider is never called for a request with ranges. -/
def routed (what : Bytes) (req : RequestHead) : Handler → Option Routed
  | failed => some (.threw (.begun req) what)
  | responded none => some (.handled (.begun req))
  | responded (some resp) =>
      let res := (HttpResponse.begun req).setContent (cStr (toStyledString resp.content)) jsonType
      some (.handled (res.withStatus resp.status))
  | popping _ _ => none
  | providing id provider =>
      let res := (HttpResponse.begun req).setChunkedContentProvider "text/event-stream"
        (provider.sink.offered.map utf8)
      let ends :=
        if req.isRanged then (providing id provider).isUncalled
        else provider.point matches .returned
      if ends then some (.handled res) else none

/-- The status and the body that a handler gave. -/
def gave : Handler → Option (Int × Bytes)
  | failed => some (500, [])
  | responded none => some (200, [])
  | responded (some resp) => some (resp.status, cStr (toStyledString resp.content))
  | popping _ _ => none
  | providing _ provider =>
      if provider.point matches .returned then
        some (200, (provider.sink.offered.map utf8).flatten)
      else none

end Handler

namespace HttpResponse

theorem writable_begun (req : RequestHead) : (begun req).headers.Writable :=
  Headers.writable_empty.setHeader (by decide) _

theorem unframed_begun (req : RequestHead) : Unframed (begun req).headers := by
  have hinitial : Unframed initial.headers := ⟨rfl, rfl⟩
  exact hinitial.setHeader (by decide) (by decide) _

section Content

variable (res : HttpResponse) (s : Bytes) (contentType : String)

/-- The response whose type is about to be set. -/
def untyped : HttpResponse :=
  { res with body := s, headers := res.headers.erase ((utf8 "Content-Type").map toLower) }

theorem writable_setContent (h : res.headers.Writable) :
    (res.setContent s contentType).headers.Writable := by
  have hrest : (res.untyped s).headers.Writable := h.subset (Multimap.erase_subset _ _)
  exact writable_setHeader hrest (by decide) _

theorem unframed_setContent (h : Unframed res.headers) :
    Unframed (res.setContent s contentType).headers := by
  have hrest : Unframed (res.untyped s).headers := h.subset (Multimap.erase_subset _ _)
  exact hrest.setHeader (by decide) (by decide) _

/-- The type that was set is the only one. -/
theorem contentType_setContent (hval : hasCrlf (utf8 contentType) = false) :
    (res.setContent s contentType).headers.find ((utf8 "Content-Type").map toLower) =
      some (utf8 "Content-Type", utf8 contentType) := by
  show ((res.untyped s).headers.setHeader _ _).find _ = _
  rw [Headers.find_setHeader, if_pos ⟨rfl, by decide, hval⟩]
  have hnone : (res.untyped s).headers.find ((utf8 "Content-Type").map toLower) = none :=
    Multimap.find_erase_self _ _
  rw [hnone]
  rfl

end Content

/-- A response is readable where its lines fit and its body is described. -/
theorem readable_prepare {res : HttpResponse} {env : ResponseEnv} {req : RequestHead}
    (writable : res.headers.Writable) (h : res.Framed ∨ res.Bodyless)
    (status : 100 < res.status ∧ res.status < 1000 ∧ res.status ≠ 204)
    (fits : (res.prepare env req).headers.fits = true) (sized : (res.prepare env req).Sized) :
    (res.prepare env req).Readable := by
  have hadds := prepare_adds res env req
  refine ⟨hadds.writable writable, fits, framed_prepare res env req h, sized, ?_⟩
  rw [hadds.status]
  exact status

theorem prepare_status (res : HttpResponse) (env : ResponseEnv) (req : RequestHead) :
    (res.prepare env req).status = res.status :=
  (prepare_adds res env req).status

theorem prepare_entity (res : HttpResponse) (env : ResponseEnv) (req : RequestHead) :
    (res.prepare env req).entity = res.entity := by
  have hadds := prepare_adds res env req
  rw [entity, entity, hadds.body, hadds.contentProvider]

end HttpResponse

/-- How the routing of a request ended, by the handler it called.  Without one the server answers
with an error of its own. -/
inductive Routes (toStyledString : Json → Bytes) (what : Bytes) (req : RequestHead) :
    Option Handler → Routed → Prop
  | missed {status : Int} (error : status = -1 ∨ 400 ≤ status ∧ status < 500) :
      Routes toStyledString what req none (.missed status)
  | called {handler : Handler} {routed : Routed} (parsed : req.ranges?.isSome = true)
      (ends : handler.routed toStyledString what req = some routed) :
      Routes toStyledString what req (some handler) routed

/-- What the routing may leave: no header that says where the body ends, and after an exception no
body either. -/
inductive Routed.Left : Routed → Prop
  | handled {res : HttpResponse} (writable : res.headers.Writable)
      (unframed : HttpResponse.Unframed res.headers)
      (alone : res.body = [] ∨ res.contentProvider = none)
      (status : res.status = -1 ∨ res.status ∈ statusCodes) : Left (.handled res)
  | threw {res : HttpResponse} {what : Bytes} (writable : res.headers.Writable)
      (unframed : HttpResponse.Unframed res.headers) (empty : res.body = [])
      (unprovided : res.contentProvider = none) : Left (.threw res what)
  | missed {status : Int} (error : status = -1 ∨ 400 ≤ status ∧ status < 500) :
      Left (.missed status)

theorem finalStatus_bounds {status : Int} (h : status = -1 ∨ status ∈ statusCodes)
    (ranges : Ranges) : 100 < finalStatus status ranges ∧ finalStatus status ranges < 1000 ∧
      finalStatus status ranges ≠ 204 := by
  have hall : ∀ code ∈ statusCodes, code ≠ -1 ∧ 100 < code ∧ code < 1000 ∧ code ≠ 204 := by decide
  rw [finalStatus]
  rcases h with rfl | hcode
  · rw [if_pos rfl]
    split <;> decide
  · rw [if_neg (hall status hcode).1]
    exact (hall status hcode).2

theorem Routed.Left.readable {routed : Routed} (h : routed.Left) {env : ResponseEnv}
    {req : RequestHead} {ranges : Ranges} {res : HttpResponse}
    (responds : routed.respond env req ranges = some res) (fits : res.headers.fits = true)
    (sized : res.Sized) : res.Readable := by
  cases h with
  | @handled res₀ writable unframed alone status =>
    rw [Routed.respond] at responds
    split at responds
    · cases responds
      have hstatus : (100 : Int) < 416 ∧ (416 : Int) < 1000 ∧ (416 : Int) ≠ 204 := by decide
      exact HttpResponse.readable_prepare writable (.inr ⟨unframed, rfl, rfl⟩) hstatus fits sized
    · obtain ⟨res₁, happly, rfl⟩ := Option.map_eq_some_iff.mp responds
      obtain ⟨hstatus, hwritable, hframed⟩ := HttpResponse.applyRanges_spec
        (res₀.withStatus (finalStatus res₀.status ranges)) unframed alone happly
      refine HttpResponse.readable_prepare (hwritable writable) hframed ?_ fits sized
      rw [hstatus]
      exact finalStatus_bounds status ranges
  | @threw res₀ what writable unframed empty unprovided =>
    cases responds
    have hstatus : (100 : Int) < 500 ∧ (500 : Int) < 1000 ∧ (500 : Int) ≠ 204 := by decide
    exact HttpResponse.readable_prepare (HttpResponse.writable_setHeader writable (by decide) _)
      (.inr ⟨unframed.setHeader (by decide) (by decide) _, empty, unprovided⟩) hstatus fits sized
  | @missed status error =>
    cases responds
    refine HttpResponse.readable_prepare Headers.writable_empty (.inr ⟨⟨rfl, rfl⟩, rfl, rfl⟩) ?_
      fits sized
    show 100 < (if status = -1 then (404 : Int) else status) ∧
      (if status = -1 then (404 : Int) else status) < 1000 ∧
        (if status = -1 then (404 : Int) else status) ≠ 204
    split <;> omega

section Routed

variable {toStyledString : Json → Bytes} {what : Bytes} {req : RequestHead} {handler : Handler}
  {routed : Routed} (ends : handler.routed toStyledString what req = some routed)
include ends

theorem routed_left (coded : handler.Coded) : routed.Left := by
  have hwritable := HttpResponse.writable_begun req
  have hunframed := HttpResponse.unframed_begun req
  cases handler with
  | failed =>
    cases ends
    exact .threw hwritable hunframed rfl rfl
  | popping => cases ends
  | providing id provider =>
    rw [Handler.routed, Option.ite_none_right_eq_some] at ends
    cases ends.2
    have hwritable' := HttpResponse.writable_setHeader hwritable
      (by decide : PlainName (utf8 "Content-Type")) (utf8 "text/event-stream")
    have hunframed' : HttpResponse.Unframed ((HttpResponse.begun req).setHeader "Content-Type"
        (utf8 "text/event-stream")).headers := hunframed.setHeader (by decide) (by decide) _
    exact .handled hwritable' hunframed' (.inl rfl) (.inl rfl)
  | responded resp =>
    cases resp with
    | none =>
      cases ends
      exact .handled hwritable hunframed (.inl rfl) (.inl rfl)
    | some resp =>
      cases ends
      have hwritable' := HttpResponse.writable_setContent (HttpResponse.begun req)
        (cStr (toStyledString resp.content)) jsonType hwritable
      have hunframed' := HttpResponse.unframed_setContent (HttpResponse.begun req)
        (cStr (toStyledString resp.content)) jsonType hunframed
      exact .handled hwritable' hunframed' (.inr rfl) (.inr (coded resp rfl))

end Routed

/-! ## What the client is told -/

/-- What a response says, by the handler that was called for the request. -/
inductive Told (toStyledString : Json → Bytes) (env : ResponseEnv) (req : RequestHead)
    (res : HttpResponse) : Option Handler → Prop
  | missed (status : 400 ≤ res.status ∧ res.status < 500)
      (unparsed : req.ranges? = none → res.status = 416) (empty : res.entity = []) :
      Told toStyledString env req res none
  | whole {handler : Handler} (unranged : req.isRanged = false ∨ handler = .failed)
      (gave : handler.gave toStyledString = some (res.status, res.entity)) :
      Told toStyledString env req res (some handler)
  /-- nothing of a stream can be asked for -/
  | streamed {id : Nat} {provider : ContentProvider} (ranged : req.isRanged = true)
      (uncalled : (Handler.providing id provider).isUncalled = true) (status : res.status = 416)
      (empty : res.entity = []) : Told toStyledString env req res (some (.providing id provider))
  | unsatisfiable {handler : Handler} {ranges : Ranges} {given : Int × Bytes}
      (asked : req.ranges? = some ranges) (gave : handler.gave toStyledString = some given)
      (error : rangeError ranges given.1 given.2.length = none) (status : res.status = 416)
      (empty : res.entity = []) : Told toStyledString env req res (some handler)
  /-- one range of a success -/
  | slice {handler : Handler} {range resolved : Range} {text : Bytes}
      (asked : req.ranges? = some [range])
      (gave : handler.gave toStyledString = some (res.status, text))
      (success : isSuccess res.status = true)
      (resolves : rangeError [range] res.status text.length = some [resolved])
      (inside : Range.Inside text.length resolved)
      (entity : res.entity =
        (text.drop resolved.1.toNat).take (resolved.2 - resolved.1 + 1).toNat) :
      Told toStyledString env req res (some handler)
  /-- several ranges, or those of a refusal, which nobody has checked -/
  | cut {handler : Handler} {ranges resolved : Ranges} {text : Bytes}
      (ranged : req.isRanged = true) (asked : req.ranges? = some ranges)
      (others : 1 < ranges.length ∨ isSuccess res.status = false)
      (gave : handler.gave toStyledString = some (res.status, text))
      (resolves : rangeError ranges res.status text.length = some resolved)
      (entity : cutText env.ndebug env.boundary (utf8 jsonType) text resolved =
        some res.entity) : Told toStyledString env req res (some handler)

theorem ranges_of_isRanged {req : RequestHead} {ranges : Ranges}
    (asked : req.ranges? = some ranges) :
    (req.isRanged = false ∧ ranges = []) ∨
      (req.isRanged = true ∧ ranges ≠ [] ∧ ∀ r ∈ ranges, -1 ≤ r.1 ∧ r.1 < 2 ^ 63) := by
  rw [RequestHead.ranges?] at asked
  cases hranged : req.isRanged with
  | false =>
    rw [hranged, if_neg Bool.false_ne_true] at asked
    cases asked
    exact .inl ⟨rfl, rfl⟩
  | true =>
    rw [hranged, if_pos rfl] at asked
    exact .inr ⟨rfl, parseRangeHeader_spec asked⟩

/-- A status that the engine gave is not unset. -/
theorem finalStatus_of_coded {status : Int} (h : status ∈ statusCodes) (ranges : Ranges) :
    finalStatus status ranges = status :=
  if_neg fun hunset => absurd (hunset ▸ h) (by decide)

/-- The response to a reply, from the status and the text of the reply alone. -/
theorem respond_text (env : ResponseEnv) (req : RequestHead) (ranges : Ranges) {status : Int}
    (coded : status ∈ statusCodes) (text : Bytes) :
    ((Routed.handled (((HttpResponse.begun req).setContent text jsonType).withStatus
        status)).respond env req ranges).map (fun res => (res.status, res.entity)) =
      (rangeError ranges status text.length).elim (some (416, [])) fun resolved =>
        (cutText env.ndebug env.boundary (utf8 jsonType) text resolved).map (status, ·) := by
  obtain ⟨res, hres⟩ : ∃ res, res =
    ((HttpResponse.begun req).setContent text jsonType).withStatus status := ⟨_, rfl⟩
  have hbody : res.body = text := by rw [hres]; rfl
  have hstatus : res.status = status := by rw [hres]; rfl
  have hnone : res.contentProvider = none := by rw [hres]; rfl
  have hunframed : HttpResponse.Unframed res.headers := by
    rw [hres]
    exact HttpResponse.unframed_setContent (HttpResponse.begun req) text jsonType
      (HttpResponse.unframed_begun req)
  have htype : ((res.headers.find ((utf8 "Content-Type").map toLower)).map Prod.snd).getD [] =
      utf8 jsonType := by
    rw [hres]
    show (((((HttpResponse.begun req).setContent text jsonType).headers.find _).map _).getD _) = _
    rw [HttpResponse.contentType_setContent _ _ _ (by decide)]
    rfl
  have hsame : res.withStatus status = res := by rw [hres]; rfl
  rw [← hres, Routed.respond, hstatus, finalStatus_of_coded coded, hsame, hstatus, hbody]
  cases rangeError ranges status text.length with
  | none =>
    dsimp only
    rw [Option.map_some, HttpResponse.prepare_status, HttpResponse.prepare_entity]
    rfl
  | some resolved =>
    have hentity := HttpResponse.applyRanges_entity res hnone env resolved
    rw [htype, hbody] at hentity
    show Option.map _ (Option.map _ _) = Option.map _ _
    rw [← hentity, Option.map_map, Option.map_map]
    cases happly : res.applyRanges env resolved with
    | none => rfl
    | some res' =>
      obtain ⟨hstatus', _⟩ := HttpResponse.applyRanges_spec res hunframed (.inr hnone) happly
      rw [Option.map_some, Option.map_some, Function.comp, Function.comp,
        HttpResponse.prepare_status, HttpResponse.prepare_entity, hstatus', hstatus]

section Respond

variable {toStyledString : Json → Bytes} {what : Bytes} {req : RequestHead} {routed : Routed}
  {env : ResponseEnv} {ranges : Ranges} {res : HttpResponse}

/-- Ranges of a response without a body and without a status of its own. -/
theorem respond_empty {res : HttpResponse} (unset : res.status = -1) (empty : res.body = [])
    (asked : ranges ≠ []) : (Routed.handled res).respond env req ranges =
      some ((res.withStatus 206).unsatisfiable.prepare env req) := by
  have hstatus : finalStatus res.status ranges = 206 := by
    rw [finalStatus, if_pos unset, if_neg (by simpa using asked)]
  have herror : rangeError ranges (res.withStatus 206).status (res.withStatus 206).body.length =
      none := by
    show rangeError ranges 206 res.body.length = none
    rw [empty]
    exact rangeError_empty asked (by decide)
  rw [Routed.respond, hstatus, herror]

/-- A stream is whole, or it is never started. -/
theorem told_of_stream {id : Nat} {provider : ContentProvider}
    (ends : (Handler.providing id provider).routed toStyledString what req = some routed)
    (asked : req.ranges? = some ranges) (responds : routed.respond env req ranges = some res) :
    Told toStyledString env req res (some (.providing id provider)) := by
  rw [Handler.routed, Option.ite_none_right_eq_some] at ends
  obtain ⟨hends, hrouted⟩ := ends
  cases hrouted
  rcases ranges_of_isRanged asked with ⟨hranged, rfl⟩ | ⟨hranged, hne, _⟩
  · rw [hranged, if_neg Bool.false_ne_true] at hends
    cases responds
    refine .whole (.inl hranged) ?_
    rw [Handler.gave, if_pos hends, HttpResponse.prepare_status, HttpResponse.prepare_entity]
    rfl
  · rw [hranged, if_pos rfl] at hends
    rw [respond_empty rfl rfl hne] at responds
    cases responds
    exact .streamed hranged hends (HttpResponse.prepare_status _ _ _)
      (HttpResponse.prepare_entity _ _ _)

/-- The text of a reply is whole, or what the ranges leave of it. -/
theorem told_of_reply {resp : Response} (coded : resp.status ∈ statusCodes)
    (ends : (Handler.responded (some resp)).routed toStyledString what req = some routed)
    (asked : req.ranges? = some ranges) (responds : routed.respond env req ranges = some res)
    (small : (cStr (toStyledString resp.content)).length < 2 ^ 63) :
    Told toStyledString env req res (some (.responded (some resp))) := by
  cases ends
  have htext := respond_text env req ranges coded
    (cStr (toStyledString resp.content))
  rw [responds, Option.map_some] at htext
  have hgave : (Handler.responded (some resp)).gave toStyledString =
      some (resp.status, cStr (toStyledString resp.content)) := rfl
  rcases ranges_of_isRanged asked with ⟨hranged, rfl⟩ | ⟨hranged, hne, _⟩
  · rw [rangeError_nil, Option.elim_some, cutText_nil, Option.map_some] at htext
    exact .whole (.inl hranged) (hgave.trans htext.symm)
  · cases herror : rangeError ranges resp.status (cStr (toStyledString resp.content)).length with
    | none =>
      rw [herror, Option.elim_none, Option.some_inj, Prod.mk.injEq] at htext
      exact .unsatisfiable asked hgave herror htext.1 htext.2
    | some resolved =>
      rw [herror, Option.elim_some] at htext
      obtain ⟨text, hcut, hpair⟩ := Option.map_eq_some_iff.mp htext.symm
      obtain ⟨hstatus, rfl⟩ := Prod.mk.inj hpair
      rw [hstatus] at herror hgave
      cases hsuccess : isSuccess res.status with
      | false => exact .cut hranged asked (.inr hsuccess) hgave herror hcut
      | true =>
        obtain ⟨hlength, hinside⟩ := rangeError_inside hsuccess herror
        by_cases hmany : 1 < ranges.length
        · exact .cut hranged asked (.inl hmany) hgave herror hcut
        · have hone : ranges.length = 1 := by
            have hpositive := List.length_pos_iff.mpr hne
            omega
          obtain ⟨range, rfl⟩ := List.length_eq_one_iff.mp hone
          obtain ⟨r, rfl⟩ := List.length_eq_one_iff.mp (hlength.trans hone)
          have hr := hinside r List.mem_cons_self
          rw [cutText_inside hr small] at hcut
          exact .slice asked hgave hsuccess herror hr (Option.some.inj hcut).symm

/-- What the client is told of a handler that was called. -/
theorem told_of_handler {handler : Handler} (coded : handler.Coded)
    (ends : handler.routed toStyledString what req = some routed)
    (asked : req.ranges? = some ranges) (responds : routed.respond env req ranges = some res)
    (small : ∀ given, handler.gave toStyledString = some given → given.2.length < 2 ^ 63) :
    Told toStyledString env req res (some handler) := by
  cases handler with
  | popping => cases ends
  | providing id provider => exact told_of_stream ends asked responds
  | failed =>
    cases ends
    cases responds
    refine .whole (.inr rfl) ?_
    rw [HttpResponse.prepare_status, HttpResponse.prepare_entity]
    rfl
  | responded resp =>
    cases resp with
    | some resp => exact told_of_reply (coded resp rfl) ends asked responds (small _ rfl)
    | none =>
      cases ends
      rcases ranges_of_isRanged asked with ⟨hranged, rfl⟩ | ⟨hranged, hne, _⟩
      · cases responds
        refine .whole (.inl hranged) ?_
        rw [HttpResponse.prepare_status, HttpResponse.prepare_entity]
        rfl
      · rw [respond_empty rfl rfl hne] at responds
        cases responds
        exact .unsatisfiable asked rfl (rangeError_empty hne (by decide))
          (HttpResponse.prepare_status _ _ _) (HttpResponse.prepare_entity _ _ _)

end Respond

/-! ## A connection -/

/-- A request whose head has been read, and the response to it. -/
structure Exchange (toStyledString : Json → Bytes) where
  env : ResponseEnv
  req : RequestHead
  what : Bytes
  handler : Option Handler
  routed : Routed
  routes : Routes toStyledString what req handler routed
  response : HttpResponse
  responds : (req.process env routed).2 = some response
  connects : req.method ≠ utf8 "CONNECT"
  fits : response.headers.fits = true
  sized : response.Sized
  small : ∀ given ∈ handler.bind (Handler.gave toStyledString), given.2.length < 2 ^ 63

namespace Exchange

variable {toStyledString : Json → Bytes}

/-- The bytes of the response, after those of an interim response. -/
def sent (e : Exchange toStyledString) : Bytes :=
  (e.req.process e.env e.routed).1 ++ e.response.write e.req.method

def seen (e : Exchange toStyledString) : ClientResponse := e.response.seen e.req.method

/-- The server answers by itself, or as the routing ended. -/
theorem responds_cases (e : Exchange toStyledString) :
    ((e.req.process e.env e.routed).1 = [] ∧ e.handler = none ∧
        (Routed.missed 416).respond e.env e.req [] = some e.response) ∨
      ((e.req.process e.env e.routed).1 = e.req.interim ∧ ∃ ranges, e.req.ranges? = some ranges ∧
        e.routed.respond e.env e.req ranges = some e.response) := by
  have hresponds := e.responds
  rw [RequestHead.process] at hresponds ⊢
  cases hasked : e.req.ranges? with
  | none =>
    rw [hasked] at hresponds
    refine .inl ⟨rfl, ?_, hresponds⟩
    cases hhandler : e.handler with
    | none => rfl
    | some handler =>
      have hroutes := hhandler ▸ e.routes
      cases hroutes with
      | called parsed ends =>
        rw [hasked] at parsed
        cases parsed
  | some ranges =>
    rw [hasked] at hresponds
    exact .inr ⟨rfl, ranges, rfl, hresponds⟩

variable {e : Exchange toStyledString} (coded : ∀ handler ∈ e.handler, handler.Coded)
include coded

theorem left : e.routed.Left := by
  obtain ⟨env, req, what, handler, routed, routes, _⟩ := e
  cases routes with
  | missed error => exact .missed error
  | called parsed ends => exact routed_left ends (coded _ rfl)

theorem delimits : Delimits (readResponse e.req.method) e.sent e.seen := by
  rw [sent, seen]
  rcases e.responds_cases with ⟨hinterim, _, hresponds⟩ | ⟨hinterim, ranges, _, hresponds⟩
  · have hleft : (Routed.missed 416).Left := .missed (.inr (by decide))
    rw [hinterim, List.nil_append]
    exact (hleft.readable hresponds e.fits e.sized).delimits e.connects
  · rw [hinterim]
    exact delimits_interim e.req
      (((left coded).readable hresponds e.fits e.sized).delimits e.connects)

theorem told : Told toStyledString e.env e.req e.response e.handler := by
  have hmissed : ∀ {status : Int} {ranges : Ranges}, status = -1 ∨ 400 ≤ status ∧ status < 500 →
      (e.req.ranges? = none → status = 416) →
      (Routed.missed status).respond e.env e.req ranges = some e.response →
      Told toStyledString e.env e.req e.response none := by
    intro status ranges error unparsed responds
    have hresponse := Option.some.inj responds
    have hstatus : e.response.status = if status = -1 then 404 else status := by
      rw [← hresponse]
      exact HttpResponse.prepare_status _ _ _
    have hentity : e.response.entity = [] := by
      rw [← hresponse]
      exact HttpResponse.prepare_entity _ _ _
    refine .missed ?_ (fun hnone => ?_) hentity
    · rw [hstatus]
      split <;> omega
    · rw [hstatus, unparsed hnone]
      rfl
  rcases e.responds_cases with ⟨_, hnone, hresponds⟩ | ⟨_, ranges, hasked, hresponds⟩
  · rw [hnone]
    exact hmissed (.inr (by decide)) (fun _ => rfl) hresponds
  · obtain ⟨env, req, what, handler, routed, routes, response, responds, _, _, _, small⟩ := e
    cases routes with
    | missed error =>
      exact hmissed error (fun hnone => by cases hasked.symm.trans hnone) hresponds
    | called parsed ends => exact told_of_handler (coded _ rfl) ends hasked hresponds small

end Exchange

namespace Server

/-- **Responses in their order.**  Whatever the server has been doing, the responses on one
connection are read as they were made, each with its own status and body, and of a connection that
broke, those that had arrived whole.  `Told` says what became of what a handler gave. -/
theorem responses_received {startTime : Nat} {maxHistoryChat : Int} {es : List (Server σ × Act)}
    {t : Server σ} (hrun : Run (step vendor) (fresh startTime maxHistoryChat) es t)
    {toStyledString : Json → Bytes} (exchanges : List (Exchange toStyledString))
    (hhandlers : ∀ e ∈ exchanges, ∀ handler ∈ e.handler, handler ∈ t.handlers) (k : Nat) :
    readInTurn (exchanges.map fun e => readResponse e.req.method)
        ((exchanges.flatMap Exchange.sent).take k) =
      (exchanges.take (arrived k (exchanges.map fun e => e.sent.length))).map Exchange.seen ∧
    ∀ e ∈ exchanges, Told toStyledString e.env e.req e.response e.handler := by
  have hcoded : ∀ e ∈ exchanges, ∀ handler ∈ e.handler, handler.Coded :=
    fun e he handler hhandler => run_coded hrun handler (hhandlers e he handler hhandler)
  exact ⟨readInTurn_take (fun e he => Exchange.delimits (hcoded e he)) k,
    fun e he => Exchange.told (hcoded e he)⟩

/-- A request for a part of the response, which waits for an interim one. -/
def partialHead : RequestHead where
  method := utf8 "POST"
  headers := .ofFields [(utf8 "Range", utf8 "bytes=2-4"), (utf8 "Expect", utf8 "100-continue")]

/-- A request without any header. -/
def bareHead : RequestHead where
  method := utf8 "POST"
  headers := .empty

def compactText (json : Json) : Bytes := utf8 json.compact

def plainEnv : ResponseEnv where
  closeConnection := false
  ndebug := true
  randomString := []

/-- The handler has come to its end, with a response that can be read. -/
def answerable (req : RequestHead) (handler : Handler) : Bool :=
  req.ranges?.isSome &&
  ((handler.gave compactText).all fun given => given.2.length < 2 ^ 63) &&
  (handler.routed compactText [] req).any fun routed =>
    (req.process plainEnv routed).2.any fun res => res.headers.fits && res.Sized

theorem exists_exchange {req : RequestHead} {handler : Handler}
    (connects : req.method ≠ utf8 "CONNECT") (h : answerable req handler = true) :
    ∃ e : Exchange compactText, e.req = req ∧ e.handler = some handler := by
  rw [answerable, Bool.and_eq_true, Bool.and_eq_true, Option.any_eq_true] at h
  obtain ⟨⟨hparsed, hsmall⟩, routed, hrouted, hany⟩ := h
  obtain ⟨res, hres, hok⟩ := (Option.any_eq_true _ _).mp hany
  obtain ⟨hfits, hsized⟩ := Bool.and_eq_true_iff.mp hok
  refine ⟨⟨plainEnv, req, [], some handler, routed, .called hparsed hrouted, res, hres, connects,
    hfits, of_decide_eq_true hsized, fun given hgiven => ?_⟩, rfl, rfl⟩
  rw [Option.all_eq_true] at hsmall
  exact of_decide_eq_true (hsmall given hgiven)

/-- A part of the response to a load, and a whole stream, on a connection that lasts. -/
theorem responses_received_wholeStream : ∃ t, ∃ e e' : Exchange compactText,
    execute (step utf8Vendor) (fresh 0 0) wholeStream = some t ∧
      t.handlers.map some = [e.handler, e'.handler] ∧
      e.req = partialHead ∧ e'.req = bareHead ∧
      readInTurn [readResponse e.req.method, readResponse e'.req.method] (e.sent ++ e'.sent) =
        [e.seen, e'.seen] ∧
      Told compactText e.env e.req e.response e.handler ∧
      Told compactText e'.env e'.req e'.response e'.handler := by
  have hruns : (execute (step utf8Vendor) (fresh 0 0) wholeStream).any (fun t =>
      t.handlers.length = 2 && t.handlers.head?.any (answerable partialHead) &&
        t.handlers.getLast?.any (answerable bareHead)) = true := by decide +kernel
  obtain ⟨t, hexecute, hrun, htest⟩ := exists_run_of_execute hruns
  rw [Bool.and_eq_true, Bool.and_eq_true, decide_eq_true_eq] at htest
  obtain ⟨⟨htwo, hfirst⟩, hlast⟩ := htest
  obtain ⟨handler, handler', hhandlers⟩ := List.length_eq_two.mp htwo
  rw [hhandlers] at hfirst hlast
  obtain ⟨e, hreq, hhandler⟩ := exists_exchange (by decide) hfirst
  obtain ⟨e', hreq', hhandler'⟩ := exists_exchange (by decide) hlast
  have hmem : ∀ f ∈ [e, e'], ∀ g ∈ f.handler, g ∈ t.handlers := by
    simp [hhandlers, hhandler, hhandler']
  obtain ⟨hreceived, htold⟩ := responses_received hrun [e, e'] hmem
    ([e, e'].flatMap Exchange.sent).length
  rw [List.take_length, arrived_all (by simp)] at hreceived
  refine ⟨t, e, e', hexecute, by simp [hhandlers, hhandler, hhandler'], hreq, hreq',
    by simpa using hreceived, htold e (by simp), htold e' (by simp)⟩

/-! ## Ranges that end the process -/

/-- Without ranges nothing is cut. -/
theorem respond_unranged (env : ResponseEnv) (req : RequestHead) (routed : Routed) :
    routed.respond env req [] ≠ none := by
  cases routed with
  | threw | missed => exact Option.some_ne_none _
  | handled res =>
    rw [Routed.respond, rangeError_nil]
    dsimp only
    rw [ne_eq, Option.map_eq_none_iff, HttpResponse.applyRanges]
    split <;> exact Option.some_ne_none _

/-- The text of a success is checked against the ranges before it is cut, and the text of a refusal
is not. -/
theorem respond_text_eq_none_iff (env : ResponseEnv) {req : RequestHead} {ranges : Ranges}
    (asked : req.ranges? = some ranges) {status : Int} (coded : status ∈ statusCodes) {text : Bytes}
    (small : text.length < 2 ^ 63) :
    (Routed.handled (((HttpResponse.begun req).setContent text jsonType).withStatus
        status)).respond env req ranges = none ↔
      isSuccess status = false ∧ text ≠ [] ∧
        ∃ r ∈ ranges, ¬if env.ndebug then 0 ≤ r.1 ∧ r.1 ≤ text.length
          else Range.Inside text.length r := by
  have hpositions : ∀ r ∈ ranges, -1 ≤ r.1 ∧ r.1 < 2 ^ 63 := by
    rcases ranges_of_isRanged asked with ⟨_, rfl⟩ | ⟨_, _, hpositions⟩
    · exact fun _ hmem => absurd hmem List.not_mem_nil
    · exact hpositions
  rw [← Option.map_eq_none_iff (f := fun res : HttpResponse => (res.status, res.entity)),
    respond_text env req ranges coded text]
  cases hsuccess : isSuccess status with
  | true =>
    refine iff_of_false ?_ (fun h => Bool.noConfusion h.1)
    cases hresolves : rangeError ranges status text.length with
    | none => exact Option.some_ne_none _
    | some resolved =>
      rw [Option.elim_some, Option.map_eq_none_iff]
      exact cutText_of_success hsuccess small hresolves _ _ _
  | false =>
    rw [rangeError_refusal hsuccess, Option.elim_some, Option.map_eq_none_iff,
      cutText_eq_none_iff small hpositions]
    exact (and_iff_right rfl).symm

/-- **A range can end the process.**  Nobody checks the ranges of a refusal, and the exception of
`substr`, or a failed assertion, comes outside of the `try` block. -/
theorem range_ends_process_iff {startTime : Nat} {maxHistoryChat : Int}
    {es : List (Server σ × Act)} {t : Server σ}
    (hrun : Run (step vendor) (fresh startTime maxHistoryChat) es t) {handler : Handler}
    (hhandler : handler ∈ t.handlers) {toStyledString : Json → Bytes} {what : Bytes}
    {req : RequestHead} {routed : Routed} {ranges : Ranges} {given : Int × Bytes}
    (ends : handler.routed toStyledString what req = some routed)
    (asked : req.ranges? = some ranges) (gave : handler.gave toStyledString = some given)
    (small : given.2.length < 2 ^ 63) (env : ResponseEnv) :
    (req.process env routed).2 = none ↔
      isSuccess given.1 = false ∧ given.2 ≠ [] ∧
        ∃ r ∈ ranges, ¬if env.ndebug then 0 ≤ r.1 ∧ r.1 ≤ given.2.length
          else Range.Inside given.2.length r := by
  have hcoded := run_coded hrun handler hhandler
  have hprocess : (req.process env routed).2 = routed.respond env req ranges := by
    rw [RequestHead.process, asked]
  rw [hprocess]
  cases handler with
  | popping => cases ends
  | failed =>
    cases ends
    cases gave
    exact iff_of_false (by simp [Routed.respond]) (by simp)
  | providing id provider =>
    rw [Handler.routed, Option.ite_none_right_eq_some] at ends
    rw [Handler.gave, Option.ite_none_right_eq_some] at gave
    obtain ⟨hends, hrouted⟩ := ends
    cases hrouted
    rcases ranges_of_isRanged asked with ⟨_, rfl⟩ | ⟨hranged, _⟩
    · exact iff_of_false (respond_unranged _ _ _) (by simp)
    · -- it cannot have returned if it was never called
      rw [hranged, if_pos rfl, Handler.isUncalled, Bool.and_eq_true] at hends
      have hreturned := gave.1
      cases hpoint : provider.point <;> simp [hpoint] at hends hreturned
  | responded resp =>
    cases resp with
    | none =>
      cases ends
      cases gave
      refine iff_of_false ?_ (by simp)
      rcases ranges_of_isRanged asked with ⟨_, rfl⟩ | ⟨_, hne, _⟩
      · exact respond_unranged _ _ _
      · rw [respond_empty rfl rfl hne]
        exact Option.some_ne_none _
    | some resp =>
      cases ends
      cases gave
      exact respond_text_eq_none_iff env asked (hcoded resp rfl) small

/-- A request for the last bytes of a response. -/
def suffixHead : RequestHead where
  method := utf8 "POST"
  headers := .ofFields [(utf8 "Range", utf8 "bytes=-5")]

/-- A refusal with a text. -/
def refuses (req : RequestHead) (handler : Handler) : Bool :=
  (handler.routed compactText [] req).isSome && (handler.gave compactText).any fun given =>
    given.2.length < 2 ^ 63 && !isSuccess given.1 && !given.2.isEmpty

/-- The status of a model is never told, so one request is enough at any time. -/
theorem range_ends_process_modelStatus : ∃ t handler routed,
    execute (step utf8Vendor) (fresh 0 0) [.request ⟨.getModelStatus, .ok .null⟩ {}] = some t ∧
      handler ∈ t.handlers ∧ handler.routed compactText [] suffixHead = some routed ∧
      (suffixHead.process plainEnv routed).2 = none := by
  have hruns : (execute (step utf8Vendor) (fresh 0 0)
      [.request ⟨.getModelStatus, .ok .null⟩ {}]).any
      (fun t => t.handlers.any (refuses suffixHead)) = true := by decide +kernel
  obtain ⟨t, hexecute, hrun, hany⟩ := exists_run_of_execute hruns
  obtain ⟨handler, hhandler, hrefuses⟩ := List.any_eq_true.mp hany
  obtain ⟨hends, hgave⟩ := Bool.and_eq_true_iff.mp hrefuses
  obtain ⟨routed, hrouted⟩ := Option.isSome_iff_exists.mp hends
  obtain ⟨given, hgiven, htext⟩ := (Option.any_eq_true _ _).mp hgave
  simp only [Bool.and_eq_true, decide_eq_true_eq, Bool.not_eq_true', List.isEmpty_eq_false_iff]
    at htext
  obtain ⟨⟨hsmall, hrefused⟩, hne⟩ := htext
  have hasked : suffixHead.ranges? = some [(-1, 5)] := by decide
  exact ⟨t, handler, routed, hexecute, hhandler, hrouted,
    (range_ends_process_iff hrun hhandler hrouted hasked hgiven hsmall plainEnv).mpr
      ⟨hrefused, hne, (-1, 5), List.mem_singleton_self _, fun hcuts => absurd hcuts.1 (by decide)⟩⟩

end Server

end CortexOnnx
