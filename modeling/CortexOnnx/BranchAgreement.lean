import CortexOnnx.CalmRun
import CortexOnnx.PromptLayout
import CortexOnnx.Utf8Vendor

/-!
# Streaming and non-streaming

The streaming branch decodes the last token of a growing sequence in each turn; the other branch
decodes what a whole generation has behind its prompt.  On a freshly loaded engine both give the
same text.
-/

namespace CortexOnnx

variable {σ : Type} {vendor : Vendor σ}

/-- `choices[0].message.content` of a reply, `choices[0].delta.content` of a chunk. -/
def choiceContent (key : String) (body : Json) : Except String String := do
  match (← body.index "choices").elements with
  | choice :: _ => (← (← choice.index key).index "content").asString
  | [] => .error "no choices"

theorem choiceContent_whole (created : Int) (id model content fingerprint : String)
    (promptTokens completionTokens : Int) :
    choiceContent "message" (createFullReturnJson created id model content fingerprint promptTokens
      completionTokens) = .ok content := rfl

/-- A callback with one event, whose `choices[0].delta.content` is `content`. -/
def CarriesDelta (vendor : Vendor σ) (reply : Status × Json) (content : String) : Prop :=
  ∃ body, reply = (.chunk, dataBody ("data: " ++ vendor.writeString body ++ "\n\n")) ∧
    choiceContent "delta" body = .ok content

theorem IsChunk.carriesDelta {reply : Status × Json} {content : String}
    (h : IsChunk vendor reply content) : CarriesDelta vendor reply content := by
  obtain ⟨env, rfl⟩ := h
  exact ⟨returnJson env.created env.randomString "_" content, rfl, rfl⟩

/-- Texts belong to turns. -/
theorem texts_eq (events : List Event) : texts events = (decodings events).map Prod.snd := by
  unfold texts decodings
  rw [List.map_filterMap]
  congr 1
  funext event
  cases event <;> rfl

namespace System

/-! ## The record of a stream -/

/-- The turns of request `id` decoded `tokens`, with the decoder of a freshly loaded model, and it
was sent a chunk for each of the texts and then `last`. -/
structure Recorded (vendor : Vendor σ) (path : String) (id : Nat) (t : System σ)
    (tokens : List Int) (last : List (Status × Json)) : Prop where
  inputs : (decodingsOf id t.log).map Prod.fst = tokens
  outputs : (decodingsOf id t.log).map Prod.snd =
    CortexOnnx.outputs (vendor.streamDecode path) (vendor.streamInit path) tokens
  transcript : Transcript vendor (about Event.subject? id t.log) last

section Record

variable {path : String} {id : Nat} {s t : System σ} {tokens : List Int}
  {last : List (Status × Json)}

theorem Recorded.kept (h : Recorded vendor path id s tokens last)
    (same : about Event.subject? id t.log = about Event.subject? id s.log) :
    Recorded vendor path id t tokens last := by
  obtain ⟨hinputs, houtputs, htranscript⟩ := h
  unfold decodingsOf at hinputs houtputs
  rw [← same] at hinputs houtputs htranscript
  exact ⟨hinputs, houtputs, htranscript⟩

/-- Events of the request without a turn, with or without the last callback. -/
theorem Recorded.closed (h : Recorded vendor path id s tokens []) {events : List Event}
    (log : t.log = s.log ++ events) (concerns : Concerns id events)
    (plain : ∀ e ∈ events, e.decoding? = none) (told : replies events = last) :
    Recorded vendor path id t tokens last := by
  have hkept : decodingsOf id t.log = decodingsOf id s.log := by
    rw [log, decodingsOf_append plain]
  obtain ⟨hreplies, htexts⟩ := concerns.about
  have hsilent : texts (about Event.subject? id events) = [] := by
    rw [htexts, texts_eq, decodings, List.filterMap_eq_nil_iff.mpr plain]
    rfl
  have hlast : Transcript vendor (about Event.subject? id events) last := by
    have hall : Transcript vendor _ _ := transcript_of_silent hsilent
    rwa [hreplies, told] at hall
  refine ⟨?_, ?_, ?_⟩
  · rw [hkept, h.inputs]
  · rw [hkept, h.outputs]
  · rw [log, about_append]
    exact h.transcript.append hlast

/-- A turn adds a token, its text and a chunk. -/
theorem Recorded.turned {model : OgaModel} {env : Env} {state : σ}
    (h : Recorded vendor model.path id s tokens [])
    (follows : state =
      advance (vendor.streamDecode model.path) (vendor.streamInit model.path) tokens)
    (log : t.log = s.log ++ turnEvents vendor env id model state) :
    Recorded vendor model.path id t (tokens ++ [env.token]) [] := by
  have hturn : decodingsOf id t.log =
      decodingsOf id s.log ++ [(env.token, turnText vendor env model state)] := by
    rw [log, decodingsOf_turnEvents]
  have hconcerns : Concerns id (turnEvents vendor env id model state) :=
    turnEvents_concerns env id model state
  refine ⟨?_, ?_, ?_⟩
  · rw [hturn, List.map_append, h.inputs]
    rfl
  · rw [hturn, List.map_append, h.outputs, outputs_snoc, ← follows]
    rfl
  · rw [log, about_append]
    refine h.transcript.append ⟨[_], hconcerns.about.1, ?_⟩
    rw [hconcerns.about.2]
    exact List.Forall₂.cons ⟨env, rfl⟩ List.Forall₂.nil

end Record

/-! ## A stream from its start to its end -/

section Stages

variable (vendor) (generator : Generator) (task : Task) (model : OgaModel)

/-- How far the stream of `task` has come, with the tokens so far. -/
inductive StreamStage (t : System σ) : List Int → Prop
  | waiting {others : List Task} (idle : t.worker = .idle)
      (front : t.engine.waiting = task :: others)
      (holds : t.engine.Holds model (vendor.streamInit model.path)) : StreamStage t []
  | looping {tokens : List Int}
      (at_ : t.worker = .guard task (vendor.encode model.path task.formattedOutput ++ tokens))
      (turns : Turns generator.isDone generator.grow
        (vendor.encode model.path task.formattedOutput)
        (vendor.encode model.path task.formattedOutput ++ tokens))
      (holds : t.engine.Holds model
        (advance (vendor.streamDecode model.path) (vendor.streamInit model.path) tokens)) :
      StreamStage t tokens
  | leaving {tokens : List Int}
      (at_ : t.worker = .postLoop task ∨ t.worker = .throughput task ∨ t.worker = .finish task)
      (generates : generator.Generates (vendor.encode model.path task.formattedOutput)
        (vendor.encode model.path task.formattedOutput ++ tokens)) : StreamStage t tokens

/-- The stream has had its last callback. -/
structure StreamOver (t : System σ) (tokens : List Int) : Prop where
  gone : ¬t.IsAlive task.id
  generates : generator.Generates (vendor.encode model.path task.formattedOutput)
    (vendor.encode model.path task.formattedOutput ++ tokens)
  record : ∃ env, Recorded vendor model.path task.id t tokens
    [(.streamStop, dataBody (stopData vendor env))]

/-- A stream at one of its stages, with the record that belongs to it, or over. -/
def Streamed (t : System σ) : Prop :=
  task.id < t.next ∧ ∃ tokens,
    (StreamStage vendor generator task model t tokens ∧
      Recorded vendor model.path task.id t tokens []) ∨
    StreamOver vendor generator task model t tokens

end Stages

variable {generator : Generator} {generators : Generators} {task : Task} {model : OgaModel}

/-- A step that does not touch the stream. -/
theorem StreamStage.aside {s t : System σ} {tokens : List Int}
    (h : StreamStage vendor generator task model s tokens) (worker : t.worker = s.worker)
    (waiting : ∃ more, t.engine.waiting = s.engine.waiting ++ more)
    (handles : ∀ state, s.engine.Holds model state → t.engine.Holds model state) :
    StreamStage vendor generator task model t tokens := by
  cases h with
  | waiting idle front holds =>
    obtain ⟨more, hmore⟩ := waiting
    rw [front] at hmore
    exact .waiting (worker.trans idle) hmore (handles _ holds)
  | looping at_ turns holds => exact .looping (worker.trans at_) turns (handles _ holds)
  | leaving at_ generates =>
    rw [← worker] at at_
    exact .leaving at_ generates

theorem StreamStage.isAlive {t : System σ} {tokens : List Int}
    (h : StreamStage vendor generator task model t tokens) : t.IsAlive task.id := by
  cases h with
  | waiting _ front => exact isAlive_of_waiting front
  | looping at_ => exact isAlive_of_running (by rw [at_]; rfl)
  | leaving at_ =>
    apply isAlive_of_running
    rcases at_ with at_ | at_ | at_ <;> rw [at_] <;> rfl

/-- After its end a stream is left alone. -/
theorem StreamOver.later {s t : System σ} {tokens : List Int} (view : View vendor s t)
    (hlt : task.id < s.next) (h : StreamOver vendor generator task model s tokens) :
    StreamOver vendor generator task model t tokens := by
  obtain ⟨env, hrecord⟩ := h.record
  exact ⟨fun halive => h.gone (view.alive_before hlt halive), h.generates, env,
    hrecord.kept (view.record_kept hlt h.gone)⟩

/-- The task that `start` takes is the one that waits in front. -/
theorem front_of_queue {s : System σ} {name : String} {front : Task} {tasks others : List Task}
    (queues : s.engine.q = some ⟨name, front :: tasks⟩)
    (waits : s.engine.waiting = task :: others) : front = task := by
  rw [OnnxEngine.waiting_eq queues] at waits
  exact (List.cons.inj waits).1

/-- One step of a stream that is not over. -/
theorem StreamStage.step {s t : System σ} {state : σ} {tokens : List Int}
    (stream : task.req.stream = true) (ledger : s.Ledger vendor)
    (holds : s.engine.Holds model state) (hlt : task.id < s.next)
    (calm : CalmStep vendor generators s model state t)
    (h : StreamStage vendor (generators.for model task) task model s tokens)
    (record : Recorded vendor model.path task.id s tokens []) : ∃ tokens,
      (StreamStage vendor (generators.for model task) task model t tokens ∧
        Recorded vendor model.path task.id t tokens []) ∨
      StreamOver vendor (generators.for model task) task model t tokens := by
  cases calm with
  | answered concerns =>
    exact ⟨tokens, Or.inl ⟨h.aside rfl ⟨[], (List.append_nil _).symm⟩ fun _ h => h,
      record.kept (about_of_concerns rfl concerns (by omega))⟩⟩
  | @admitted other queue hid queues =>
    have hother : about Event.subject? task.id [Event.queued s.next] = [] :=
      about_of_ne (by simp [Event.subject?]) (by omega : task.id ≠ s.next)
    refine ⟨tokens, Or.inl ⟨h.aside rfl ⟨[other], OnnxEngine.waiting_enqueue other queues⟩
      fun _ h => ⟨h.1, h.2, h.3⟩, record.kept ?_⟩⟩
    rw [answer_log, about_append, hother, List.append_nil]
  | @started name front tasks idle queues _ =>
    cases h with
    | waiting _ waits hfresh =>
      cases front_of_queue queues waits
      refine ⟨[], Or.inl ⟨.looping ?_ ?_ ⟨hfresh.1, hfresh.2, hfresh.3⟩, ?_⟩⟩
      · rw [List.append_nil]
        rfl
      · rw [List.append_nil]
        exact .start
      · exact record.closed rfl (by simp [List.replicate, Concerns, Event.subject?])
          (by simp [List.replicate, Event.decoding?]) rfl
    | looping at_ => cases idle.symm.trans at_
    | leaving at_ => rcases at_ with at_ | at_ | at_ <;> cases idle.symm.trans at_
  | @generated env name front tasks _ idle queues whole =>
    cases h with
    -- the task in front is a stream
    | waiting _ waits =>
      cases front_of_queue queues waits
      cases stream.symm.trans whole
    | looping at_ => cases idle.symm.trans at_
    | leaving at_ => rcases at_ with at_ | at_ | at_ <;> cases idle.symm.trans at_
  | @turned env running sequence at_' goes token =>
    cases h with
    | waiting idle => cases idle.symm.trans at_'
    | looping at_ turns hfollows =>
      cases at_.symm.trans at_'
      obtain ⟨_, hstate⟩ := holds.unique hfollows
      have hgrown : (generators.for model task).grow
          (vendor.encode model.path task.formattedOutput ++ tokens) =
            vendor.encode model.path task.formattedOutput ++ (tokens ++ [env.token]) := by
        rw [token, ← List.append_assoc]
        rfl
      refine ⟨tokens ++ [env.token], Or.inl ⟨.looping ?_ ?_ ?_, record.turned hstate rfl⟩⟩
      · rw [← hgrown]
        rfl
      · rw [← hgrown]
        exact turns.turn goes
      · rw [advance_snoc, ← hstate]
        exact OnnxEngine.withHandles_holds _ _ _
    | leaving at_ => rcases at_ with at_ | at_ | at_ <;> cases at_'.symm.trans at_
  | @left running sequence at_' stops =>
    cases h with
    | waiting idle => cases idle.symm.trans at_'
    | looping at_ turns =>
      cases at_.symm.trans at_'
      exact ⟨tokens, Or.inl ⟨.leaving (Or.inl rfl) ⟨turns, stops⟩,
        record.kept (by rw [moves_log, List.append_nil])⟩⟩
    | leaving at_ => rcases at_ with at_ | at_ | at_ <;> cases at_'.symm.trans at_
  | @tested running at_' =>
    cases h with
    | waiting idle => cases idle.symm.trans at_'
    | looping at_ => cases at_.symm.trans at_'
    | leaving at_ generates =>
      rcases at_ with at_ | at_ | at_ <;> cases at_'.symm.trans at_
      exact ⟨tokens, Or.inl ⟨.leaving (Or.inr (Or.inl rfl)) generates,
        record.kept (by rw [moves_log, List.append_nil])⟩⟩
  | @measured running at_' =>
    cases h with
    | waiting idle => cases idle.symm.trans at_'
    | looping at_ => cases at_.symm.trans at_'
    | leaving at_ generates =>
      rcases at_ with at_ | at_ | at_ <;> cases at_'.symm.trans at_
      exact ⟨tokens, Or.inl ⟨.leaving (Or.inr (Or.inr rfl)) generates,
        record.kept (by rw [moves_log, List.append_nil])⟩⟩
  | @finished env running at_' =>
    cases h with
    | waiting idle => cases idle.symm.trans at_'
    | looping at_ => cases at_.symm.trans at_'
    | leaving at_ generates =>
      rcases at_ with at_ | at_ | at_ <;> cases at_'.symm.trans at_
      refine ⟨tokens, Or.inr ⟨?_, generates, env, ?_⟩⟩
      -- the tasks behind it have other numbers
      · rintro ⟨other, hother, hid⟩
        exact ledger.front_fresh (alive_of_running (by rw [at_']; rfl)) other hother hid
      · exact record.closed rfl (by simp [Concerns, Event.subject?, stopReply])
          (by simp [Event.decoding?, stopReply]) rfl

theorem Streamed.step {s t : System σ} {state : σ} (stream : task.req.stream = true)
    (ledger : s.Ledger vendor) (holds : s.engine.Holds model state)
    (calm : CalmStep vendor generators s model state t) (view : View vendor s t)
    (h : Streamed vendor (generators.for model task) task model s) :
    Streamed vendor (generators.for model task) task model t := by
  obtain ⟨hlt, tokens, ⟨hstage, hrecord⟩ | hover⟩ := h
  · exact ⟨Nat.lt_of_lt_of_le hlt view.next_le,
      hstage.step stream ledger holds hlt calm hrecord⟩
  · exact ⟨Nat.lt_of_lt_of_le hlt view.next_le, tokens, Or.inr (hover.later view hlt)⟩

/-! ## A request answered in one piece -/

section Whole

variable (vendor) (generator : Generator) (task : Task) (model : OgaModel)

inductive WholeStage (t : System σ) : Prop
  | waiting {others : List Task} (idle : t.worker = .idle)
      (front : t.engine.waiting = task :: others)
      (silent : replies (about Event.subject? task.id t.log) = [])
  | ended {tokens : List Int} (env : Env) (gone : ¬t.IsAlive task.id)
      (generates : generator.Generates (vendor.encode model.path task.formattedOutput)
        (vendor.encode model.path task.formattedOutput ++ tokens))
      (told : replies (about Event.subject? task.id t.log) =
        [(.ok, createFullReturnJson env.created env.randomString "_"
          (vendor.decode model.path tokens) "_" 0 0)])

end Whole

/-- One step of a request that is answered in one piece. -/
theorem WholeStage.step {s t : System σ} {state : σ} (whole : task.req.stream = false)
    (ledger : s.Ledger vendor) (hlt : task.id < s.next)
    (calm : CalmStep vendor generators s model state t) (view : View vendor s t)
    (h : WholeStage vendor (generators.for model task) task model s) :
    WholeStage vendor (generators.for model task) task model t := by
  cases h with
  | ended env gone generates told =>
    refine .ended env (fun halive => gone (view.alive_before hlt halive)) generates ?_
    rw [view.record_kept hlt gone, told]
  | @waiting others idle front silent =>
    cases calm with
    | answered concerns =>
      refine .waiting idle front ?_
      rw [about_of_concerns rfl concerns (by omega), silent]
    | @admitted other queue hid queues =>
      have hwaiting : (s.engine.enqueue queue other).waiting = task :: (others ++ [other]) := by
        rw [OnnxEngine.waiting_enqueue other queues, front]
        rfl
      have hother : about Event.subject? task.id [Event.queued s.next] = [] :=
        about_of_ne (by simp [Event.subject?]) (by omega : task.id ≠ s.next)
      refine .waiting idle hwaiting ?_
      rw [answer_log, about_append, hother, List.append_nil, silent]
    | started _ queues stream =>
      cases front_of_queue queues front
      cases whole.symm.trans stream
    | @generated env name first tasks tokens _ queues _ generates =>
      cases front_of_queue queues front
      have hconcerns : Concerns task.id (wholeEvents vendor env task.id model tokens) := by
        simp [wholeEvents, Concerns, Event.subject?, wholeReply]
      refine .ended env ?_ generates ?_
      · rintro ⟨other, hother, hid⟩
        exact ledger.front_fresh (alive_of_idle idle queues) other hother hid
      · rw [moves_log, about_append, replies_append, silent, hconcerns.about.1]
        rfl
    | turned at_ | left at_ | tested at_ | measured at_ | finished at_ =>
      cases idle.symm.trans at_

/-! ## The same request in both branches -/

/-- A model has been loaded, nothing has been decoded since, and nothing is going on. -/
structure FreshlyLoaded (s : System σ) (path : String) : Prop where
  running : s.fault = none
  idle : s.worker = .idle
  waiting : s.engine.waiting = []
  served : servedSince s.log = some (path, [])

/-- The one request there is waits to be started. -/
structure Admitted (vendor : Vendor σ) (model : OgaModel) (task : Task) (u : System σ) : Prop where
  tracked : u.Tracked
  ledger : u.Ledger vendor
  running : u.fault = none
  idle : u.worker = .idle
  waiting : u.engine.waiting = [task]
  holds : u.engine.Holds model (vendor.streamInit model.path)
  next : task.id < u.next
  record : about Event.subject? task.id u.log = [.queued task.id]

theorem formTask_of_reads {config : Config} {id : Nat} {jsonBody : Json}
    {req : ChatCompletionRequest} {text : String}
    (reads : ChatCompletionRequest.fromJson jsonBody = .ok req)
    (formats : formatPrompt config req.messages = .ok text) :
    formTask config id jsonBody = .ok { id, formattedOutput := text, req } := by
  -- the second read of `stream` succeeds because the first did
  cases hget : jsonBody.get "stream" (.bool false) with
  | error what => simp [ChatCompletionRequest.fromJson, hget] at reads
  | ok value =>
    cases hbool : value.asBool with
    | error what => simp [ChatCompletionRequest.fromJson, hget, hbool] at reads
    | ok isStream => simp [formTask, reads, hget, hbool, formats]

theorem admitted_of_call {startTime : Nat} {maxHistoryChat : Int} {before : List (System σ × Act)}
    {s u : System σ} {path text : String} {jsonBody : Json} {req : ChatCompletionRequest}
    (reached : Run (step vendor .fine) (fresh startTime maxHistoryChat) before s)
    (loaded : s.FreshlyLoaded path) (reads : ChatCompletionRequest.fromJson jsonBody = .ok req)
    (formats : formatPrompt s.engine.config req.messages = .ok text)
    (taken : step vendor .fine s (.handleChatCompletion jsonBody) = some u) :
    ∃ model, model.path = path ∧
      Admitted vendor model { id := s.next, formattedOutput := text, req } u := by
  obtain ⟨htracked, hledger⟩ := run_ledger reached
  obtain ⟨model, hpath, hholds⟩ := run_decoded reached path [] loaded.served
  subst hpath
  have hset := htracked.flag_of_holds hholds
  have hforms : formTask s.engine.config s.next jsonBody =
      .ok { id := s.next, formattedOutput := text, req } := formTask_of_reads reads formats
  have ht := htracked.transition taken
  have htracked' := ht.tracked htracked
  have hledger' := ht.view.ledger hledger loaded.running
  refine ⟨model, rfl, ?_⟩
  cases ht with
  | chatRefused unset => exact absurd (hset.symm.trans unset) (by decide)
  | chatThrew set forms => cases hforms.symm.trans forms
  | chatFaulted set null =>
    have hqueue := htracked.queue set
    rw [null] at hqueue
    cases hqueue
  | @chatQueued _ task queue set forms queues =>
    cases hforms.symm.trans forms
    have hunborn := hledger.unborn s.next (Nat.le_refl _)
    refine ⟨htracked', hledger', loaded.running, loaded.idle, ?_,
      ⟨hholds.1, hholds.2, hholds.3⟩, Nat.lt_succ_self _, ?_⟩
    · rw [answer_engine, OnnxEngine.waiting_enqueue _ queues, loaded.waiting]
      rfl
    · rw [answer_log, about_append, hunborn]
      simp [about, Event.subject?]

/-- A run from the call of request `s.next` on in which nothing goes wrong. -/
def Continues (vendor : Vendor σ) (generators : Generators) (s : System σ) (jsonBody : Json)
    (t : System σ) : Prop :=
  ∃ u es, step vendor .fine s (.handleChatCompletion jsonBody) = some u ∧
    Run (step vendor .fine) u es t ∧ EveryStep (fun s act => s.Obeys vendor generators act) es

/-- Such a run in which the request has come to its end. -/
def Finishes (vendor : Vendor σ) (generators : Generators) (s : System σ) (jsonBody : Json)
    (t : System σ) : Prop :=
  s.Continues vendor generators jsonBody t ∧ ¬t.IsAlive s.next

/-- A call is always taken. -/
theorem call_taken (vendor : Vendor σ) {s : System σ} (running : s.fault = none)
    (jsonBody : Json) : ∃ u, step vendor .fine s (.handleChatCompletion jsonBody) = some u := by
  simp [step, running, handler, Grain.allows]

theorem not_isAlive_of_empty {t : System σ} {id : Nat} (empty : t.alive = []) :
    ¬t.IsAlive id := by
  rintro ⟨task, htask, _⟩
  rw [empty] at htask
  exact absurd htask List.not_mem_nil

theorem Admitted.streamed {u t : System σ} {es : List (System σ × Act)}
    (h : Admitted vendor model task u) (stream : task.req.stream = true)
    (hrun : Run (step vendor .fine) u es t)
    (obeys : EveryStep (fun s act => s.Obeys vendor generators act) es) :
    t.fault = none ∧ Streamed vendor (generators.for model task) task model t := by
  have hstart : Streamed vendor (generators.for model task) task model u := by
    refine ⟨h.next, [], Or.inl ⟨.waiting h.idle h.waiting h.holds, ?_, ?_, ?_⟩⟩
    · rw [decodingsOf, h.record]
      rfl
    · rw [decodingsOf, h.record]
      rfl
    · rw [h.record]
      exact ⟨[], rfl, List.Forall₂.nil⟩
  have hend := run_calm hrun h.tracked h.ledger h.running ⟨_, h.holds⟩ hstart
    (fun ledger holds calm view hs => hs.step stream ledger holds calm view) obeys
  exact ⟨hend.1.2.2.1, hend.2⟩

theorem Admitted.whole {u t : System σ} {es : List (System σ × Act)}
    (h : Admitted vendor model task u) (whole : task.req.stream = false)
    (hrun : Run (step vendor .fine) u es t)
    (obeys : EveryStep (fun s act => s.Obeys vendor generators act) es) :
    t.fault = none ∧ WholeStage vendor (generators.for model task) task model t := by
  have hstart : WholeStage vendor (generators.for model task) task model u := by
    refine .waiting h.idle h.waiting ?_
    rw [h.record]
    rfl
  have hend := run_calm hrun h.tracked h.ledger h.running ⟨_, h.holds⟩
    (I := fun t => task.id < t.next ∧ WholeStage vendor (generators.for model task) task model t)
    ⟨h.next, hstart⟩ (fun ledger _ calm view hs =>
      ⟨Nat.lt_of_lt_of_le hs.1 view.next_le, hs.2.step whole ledger hs.1 calm view⟩) obeys
  exact ⟨hend.1.2.2.1, hend.2.2⟩

/-! ## Every request comes to its end -/

section Progress

variable (vendor) {s : System σ} {state : σ}

/-- The loop is left when the generator is done. -/
theorem left_taken {sequence : List Int} (tracked : s.Tracked) (running : s.fault = none)
    (at_ : s.worker = .guard task sequence) (holds : s.engine.Holds model state) :
    step vendor .fine s (.iterate { isDone := true }) =
      some (s.moves s.engine [] (.postLoop task)) := by
  refine tracked.taken (by simp [step, running, handler, workerStep, at_]) fun t ht => ?_
  cases ht with
  | turned _ _ turns => simp [OnnxEngine.turns] at turns
  | loopLeft at_' =>
    cases at_.symm.trans at_'
    rfl
  | turnFailed _ throws => simp [OnnxEngine.turnThrows, OnnxEngine.turns] at throws
  | turnFaulted _ empty => exact absurd empty holds.not_empty

theorem postLoop_taken (tracked : s.Tracked) (running : s.fault = none)
    (at_ : s.worker = .postLoop task) (set : s.engine.modelLoaded = true) :
    step vendor .fine s .postLoop = some (s.moves s.engine [] (.throughput task)) := by
  refine tracked.taken (by simp [step, running, handler, workerStep, at_]) fun t ht => ?_
  cases ht with
  | leftUnloaded _ unset => exact absurd (set.symm.trans unset) (by decide)
  | leftLoaded at_' =>
    cases at_.symm.trans at_'
    rfl

theorem throughput_taken (tracked : s.Tracked) (running : s.fault = none)
    (at_ : s.worker = .throughput task) :
    step vendor .fine s (.throughput {}) = some (s.moves s.engine [] (.finish task)) := by
  refine tracked.taken (by simp [step, running, handler, workerStep, at_]) fun t ht => ?_
  cases ht with
  | tornDown _ slow => cases slow
  | fastEnough at_' =>
    cases at_.symm.trans at_'
    rfl

theorem finish_taken (tracked : s.Tracked) (running : s.fault = none)
    (at_ : s.worker = .finish task) : step vendor .fine s (.finish {}) =
      some (s.moves s.engine [stopReply vendor {} task.id] .idle) := by
  refine tracked.taken (by simp [step, running, handler, workerStep, at_]) fun t ht => ?_
  cases ht with
  | finished at_' =>
    cases at_.symm.trans at_'
    rfl

/-- A run in which nothing goes wrong and after which no task is left. -/
def Completes (vendor : Vendor σ) (generators : Generators) (s : System σ) : Prop :=
  ∃ es t, Run (step vendor .fine) s es t ∧
    EveryStep (fun s act => s.Obeys vendor generators act) es ∧ t.alive = []

variable {vendor}

theorem Completes.cons {t : System σ} {act : Act} (taken : step vendor .fine s act = some t)
    (obeys : s.Obeys vendor generators act) (h : t.Completes vendor generators) :
    s.Completes vendor generators := by
  obtain ⟨es, u, hrun, hes, halive⟩ := h
  exact ⟨_, u, hrun.cons taken, List.forall_mem_cons.mpr ⟨obeys, hes⟩, halive⟩

/-- Past the loop. -/
theorem completes_of_postLoop (tracked : s.Tracked) (running : s.fault = none)
    (at_ : s.worker = .postLoop task) (set : s.engine.modelLoaded = true)
    (last : s.engine.waiting = []) : s.Completes vendor generators := by
  have htests := postLoop_taken vendor tracked running at_ set
  have htracked := tracked.after htests
  have hmeasures := throughput_taken vendor htracked running rfl
  have htracked' := htracked.after hmeasures
  have hfinishes := finish_taken vendor htracked' running rfl
  refine .cons htests trivial (.cons hmeasures rfl (.cons hfinishes trivial ?_))
  refine ⟨[], _, Run.nil, fun _ he => absurd he List.not_mem_nil, ?_⟩
  rw [alive, moves_engine, moves_worker]
  exact last

/-- The loop ends because the generator does: by induction on the turns that are left. -/
theorem completes_of_guard {prompt output : List Int}
    (generates : (generators.for model task).Generates prompt output) (tracked : s.Tracked)
    (running : s.fault = none) (at_ : s.worker = .guard task prompt)
    (holds : s.engine.Holds model state) (last : s.engine.waiting = []) :
    s.Completes vendor generators := by
  have hall : ∀ (s : System σ) (state : σ), s.Tracked → s.fault = none →
      s.worker = .guard task prompt → s.engine.Holds model state → s.engine.waiting = [] →
        s.Completes vendor generators := by
    -- each turn grows the sequence, and the loop test reads only the generator
    refine Until.back (P := fun sequence => ∀ (s : System σ) (state : σ), s.Tracked →
      s.fault = none → s.worker = .guard task sequence → s.engine.Holds model state →
        s.engine.waiting = [] → s.Completes vendor generators) generates ?_ ?_
    · intro s state tracked running at_ holds last
      have hleft := left_taken vendor tracked running at_ holds
      have htracked := tracked.after hleft
      refine .cons hleft ⟨fun _ => rfl, ?_⟩
        (completes_of_postLoop htracked running rfl (tracked.flag_of_holds holds) last)
      intro task' sequence' model' at_' hmodel
      cases at_.symm.trans at_'
      cases holds.ogaModel.symm.trans hmodel
      exact ⟨generates.2.symm, fun hfalse => by cases hfalse⟩
    · intro sequence _ goes ih s state tracked running at_ holds last
      have hturn := turn_taken vendor tracked running at_ holds
        ((generators.for model task).nextToken sequence)
      have htracked := tracked.after hturn
      refine .cons hturn ⟨fun _ => rfl, ?_⟩
        (ih _ _ htracked running rfl (OnnxEngine.withHandles_holds _ _ _) last)
      intro task' sequence' model' at_' hmodel
      cases at_.symm.trans at_'
      cases holds.ogaModel.symm.trans hmodel
      exact ⟨goes.symm, fun _ => rfl⟩
  exact hall s state tracked running at_ holds last

theorem Admitted.completes_stream {output : List Int} (h : Admitted vendor model task s)
    (stream : task.req.stream = true)
    (generates : (generators.for model task).Generates
      (vendor.encode model.path task.formattedOutput) output) :
    s.Completes vendor generators := by
  obtain ⟨name, hqueue⟩ := OnnxEngine.queue_of_waiting h.waiting
  have hstart := start_taken vendor h.tracked h.running h.idle hqueue stream h.holds
  have htracked := h.tracked.after hstart
  refine .cons hstart ⟨fun _ => rfl, ?_⟩ (completes_of_guard generates htracked h.running rfl
    ⟨h.holds.1, h.holds.2, h.holds.3⟩ rfl)
  intro task' model' hnext _ hwhole
  rw [OnnxEngine.nextTask?, hqueue] at hnext
  cases hnext
  cases stream.symm.trans hwhole

theorem Admitted.completes_whole {output : List Int} (h : Admitted vendor model task s)
    (whole : task.req.stream = false)
    (generates : (generators.for model task).Generates
      (vendor.encode model.path task.formattedOutput) output)
    (counted : output.length < 2 ^ 31) : s.Completes vendor generators := by
  obtain ⟨name, hqueue⟩ := OnnxEngine.queue_of_waiting h.waiting
  obtain ⟨generated, houtput⟩ := generates.exists_append
  have htaken : ∃ t, step vendor .fine s (.start { output }) = some t := by
    simp [step, h.running, handler, workerStep, h.idle, hqueue]
  obtain ⟨t, htaken⟩ := htaken
  have ht := start_whole htaken h.idle hqueue whole h.holds (fun _ => rfl) houtput counted
  refine .cons htaken ⟨fun _ => rfl, ?_⟩
    ⟨[], t, Run.nil, fun _ he => absurd he List.not_mem_nil, by rw [ht]; rfl⟩
  intro task' model' hnext hmodel _
  rw [OnnxEngine.nextTask?, hqueue] at hnext
  cases hnext
  cases h.holds.ogaModel.symm.trans hmodel
  exact ⟨generates, counted⟩

end Progress

/-! ## The two answers -/

/-- The last element of the sequence after `k + 1` turns, at the index that is computed as an `int`,
is the token of that turn. -/
def IndexValid (prompt generated : List Int) : Prop :=
  ∀ k < generated.length,
    let sequence := prompt ++ generated.take (k + 1)
    0 ≤ toInt32 sequence.length - 1 ∧
      sequence[(toInt32 sequence.length - 1).toNat]? = generated[k]?

/-- Request `id` gets the same text streamed in the one run as in one piece in the other. -/
def Agree (vendor : Vendor σ) (path : String) (prompt output : List Int) (id : Nat)
    (t t' : System σ) : Prop :=
  ∃ generated chunks contents body env,
    -- what was generated is what comes behind the prompt
    output = prompt ++ generated ∧
    (output.length + 2 ^ 64 - prompt.length) % 2 ^ 64 = generated.length ∧
    IndexValid prompt generated ∧
    -- the stream, whose last event has no text
    (decodingsOf id t.log).map Prod.fst = generated ∧
    replies (about Event.subject? id t.log) =
      chunks ++ [(.streamStop, dataBody (stopData vendor env))] ∧
    List.Forall₂ (CarriesDelta vendor) chunks contents ∧
    -- the reply in one piece
    replies (about Event.subject? id t'.log) = [(.ok, body)] ∧
    choiceContent "message" body = .ok (String.join contents) ∧
    String.join contents = vendor.decode path generated

theorem indexValid_of_counted {prompt generated : List Int}
    (counted : (prompt ++ generated).length < 2 ^ 31) : IndexValid prompt generated := by
  intro k hk
  rw [List.length_append] at counted
  have htaken : (generated.take (k + 1)).length = k + 1 := by
    rw [List.length_take]
    omega
  have hexact : toInt32 (prompt ++ generated.take (k + 1)).length = prompt.length + (k + 1) := by
    rw [List.length_append, htaken, toInt32_of_fits]
    · omega
    · unfold Json.minInt
      omega
    · unfold Json.maxInt
      omega
  have hindex : ((prompt.length : Int) + (k + 1) - 1).toNat = prompt.length + k := by omega
  have hposition : prompt.length + k - prompt.length = k := by omega
  simp only [hexact, hindex]
  refine ⟨by omega, ?_⟩
  rw [List.getElem?_append_right (by omega), hposition, List.getElem?_take, if_pos (by omega)]

/-- A stream whose request is gone is over. -/
theorem Streamed.result {t : System σ} (h : Streamed vendor generator task model t)
    (gone : ¬t.IsAlive task.id) : ∃ tokens, StreamOver vendor generator task model t tokens := by
  obtain ⟨_, tokens, ⟨hstage, _⟩ | hover⟩ := h
  · exact absurd hstage.isAlive gone
  · exact ⟨tokens, hover⟩

theorem WholeStage.result {t : System σ} (h : WholeStage vendor generator task model t)
    (gone : ¬t.IsAlive task.id) : ∃ (tokens : List Int) (env : Env),
      generator.Generates (vendor.encode model.path task.formattedOutput)
        (vendor.encode model.path task.formattedOutput ++ tokens) ∧
      replies (about Event.subject? task.id t.log) =
        [(.ok, createFullReturnJson env.created env.randomString "_"
          (vendor.decode model.path tokens) "_" 0 0)] := by
  cases h with
  | waiting _ front => exact absurd (isAlive_of_waiting front) gone
  | ended env _ generates told => exact ⟨_, env, generates, told⟩

/-- The two answers of one generation. -/
theorem agree_of_results {path : String} {id : Nat} {t t' : System σ} {prompt tokens : List Int}
    {env env' : Env}
    (decodes : String.join (outputs (vendor.streamDecode path) (vendor.streamInit path) tokens) =
      vendor.decode path tokens)
    (counted : (prompt ++ tokens).length < 2 ^ 31)
    (streamed : Recorded vendor path id t tokens
      [(.streamStop, dataBody (stopData vendor env))])
    (whole : replies (about Event.subject? id t'.log) =
      [(.ok, createFullReturnJson env'.created env'.randomString "_" (vendor.decode path tokens)
        "_" 0 0)]) : Agree vendor path prompt (prompt ++ tokens) id t t' := by
  obtain ⟨chunks, hreplies, hchunks⟩ := streamed.transcript
  have hcontents : texts (about Event.subject? id t.log) =
      outputs (vendor.streamDecode path) (vendor.streamInit path) tokens := by
    rw [texts_eq]
    exact streamed.outputs
  rw [hcontents] at hchunks
  have hlength : ((prompt ++ tokens).length + 2 ^ 64 - prompt.length) % 2 ^ 64 =
      tokens.length := by
    rw [List.length_append] at *
    omega
  refine ⟨tokens, chunks, _, _, env, rfl, hlength, indexValid_of_counted counted,
    streamed.inputs, hreplies, hchunks.imp fun _ _ h => h.carriesDelta, whole, ?_, decodes⟩
  rw [choiceContent_whole, decodes]

/-- **Agreement.**  One request is made of a freshly loaded engine, streamed in the one run and in
one piece in the other, and other clients may go on in both.  As long as nothing goes wrong no run
faults, both come to the request's end, and the two answers are the same text.  Sequences are
`counted` by an `int` wherever the generator respects `max_length`. -/
theorem branches_agree {startTime : Nat} {maxHistoryChat : Int} {before : List (System σ × Act)}
    {s : System σ} {path text : String} {output : List Int} (generators : Generators)
    (streamBody wholeBody : Json) (req : ChatCompletionRequest)
    (reached : Run (step vendor .fine) (fresh startTime maxHistoryChat) before s)
    (loaded : s.FreshlyLoaded path)
    (decodes : ∀ tokens, String.join
      (outputs (vendor.streamDecode path) (vendor.streamInit path) tokens) =
        vendor.decode path tokens)
    (streams : ChatCompletionRequest.fromJson streamBody = .ok { req with stream := true })
    (whole : ChatCompletionRequest.fromJson wholeBody = .ok { req with stream := false })
    (formats : formatPrompt s.engine.config req.messages = .ok text)
    (generates : (generators path req.searchOptions).Generates (vendor.encode path text) output)
    (counted : output.length < 2 ^ 31) :
    (∃ t, s.Finishes vendor generators streamBody t) ∧
      (∃ t, s.Finishes vendor generators wholeBody t) ∧
      (∀ t, s.Continues vendor generators streamBody t ∨ s.Continues vendor generators wholeBody t →
        t.fault = none) ∧
      ∀ t t', s.Finishes vendor generators streamBody t →
        s.Finishes vendor generators wholeBody t' →
          Agree vendor path (vendor.encode path text) output s.next t t' := by
  have hstreamed : ∀ u, step vendor .fine s (.handleChatCompletion streamBody) = some u →
      ∃ model, model.path = path ∧ Admitted vendor model
        { id := s.next, formattedOutput := text, req := { req with stream := true } } u :=
    fun u taken => admitted_of_call reached loaded streams formats taken
  have hwhole : ∀ u, step vendor .fine s (.handleChatCompletion wholeBody) = some u →
      ∃ model, model.path = path ∧ Admitted vendor model
        { id := s.next, formattedOutput := text, req := { req with stream := false } } u :=
    fun u taken => admitted_of_call reached loaded whole formats taken
  refine ⟨?_, ?_, ?_, ?_⟩
  · obtain ⟨u, htaken⟩ := call_taken vendor loaded.running streamBody
    obtain ⟨model, rfl, hadmitted⟩ := hstreamed u htaken
    obtain ⟨es, t, hrun, hes, halive⟩ := hadmitted.completes_stream rfl generates
    exact ⟨t, ⟨u, es, htaken, hrun, hes⟩, not_isAlive_of_empty halive⟩
  · obtain ⟨u, htaken⟩ := call_taken vendor loaded.running wholeBody
    obtain ⟨model, rfl, hadmitted⟩ := hwhole u htaken
    obtain ⟨es, t, hrun, hes, halive⟩ := hadmitted.completes_whole rfl generates counted
    exact ⟨t, ⟨u, es, htaken, hrun, hes⟩, not_isAlive_of_empty halive⟩
  · rintro t (⟨u, es, htaken, hrun, hes⟩ | ⟨u, es, htaken, hrun, hes⟩)
    · obtain ⟨model, _, hadmitted⟩ := hstreamed u htaken
      exact (hadmitted.streamed rfl hrun hes).1
    · obtain ⟨model, _, hadmitted⟩ := hwhole u htaken
      exact (hadmitted.whole rfl hrun hes).1
  · rintro t t' ⟨⟨u, es, htaken, hrun, hes⟩, hgone⟩ ⟨⟨u', es', htaken', hrun', hes'⟩, hgone'⟩
    obtain ⟨model, rfl, hadmitted⟩ := hstreamed u htaken
    obtain ⟨model', hpath, hadmitted'⟩ := hwhole u' htaken'
    obtain ⟨tokens, _, hgenerates, env, hrecord⟩ :=
      (hadmitted.streamed rfl hrun hes).2.result hgone
    obtain ⟨tokens', env', hgenerates', htold⟩ :=
      (hadmitted'.whole rfl hrun' hes').2.result hgone'
    rw [Generators.for, hpath] at hgenerates'
    rw [hpath] at htold
    -- the generator stops in one place only
    have houtput := Until.unique generates hgenerates
    have houtput' := Until.unique hgenerates hgenerates'
    cases List.append_cancel_left houtput'
    rw [← houtput] at counted ⊢
    exact agree_of_results (decodes tokens) counted hrecord htold

/-- Two tokens behind a prompt of 18 bytes, which are one character. -/
def eAcute : Generator where
  isDone sequence := 20 ≤ sequence.length
  nextToken sequence := if sequence.length = 18 then 0xC3 else 0xA9

theorem eAcute_generates :
    eAcute.Generates (utf8Bytes "USER: xASSISTANT: ") (utf8Bytes "USER: xASSISTANT: é") :=
  ⟨.turn (.turn .start rfl) rfl, rfl⟩

/-- It stops well before the default of `max_tokens`. -/
theorem eAcute_bounded : eAcute.Bounded 500 := by
  intro sequence hlong
  have hdone : 20 ≤ sequence.length := by omega
  simp [eAcute, hdone]

/-- The stream holds the character back until its second byte, the other branch never sees the
first one alone. -/
theorem branches_agree_on_eAcute : ∃ s t t' : System (List Nat),
    s.Finishes utf8Vendor (fun _ _ => eAcute) (chatRequest true "x") t ∧
      s.Finishes utf8Vendor (fun _ _ => eAcute) (chatRequest false "x") t' ∧
      Agree utf8Vendor "m" (utf8Bytes "USER: xASSISTANT: ") (utf8Bytes "USER: xASSISTANT: é") s.next
        t t' := by
  have hruns : (execute (step utf8Vendor .fine) (fresh 0 0) [.loadModel {} (loadRequest "m")]).any
      (fun s => s.fault.isNone && s.worker.isIdle && s.engine.waiting.isEmpty &&
        servedSince s.log = some ("m", []) &&
        s.engine.config = defaultConfig "m") = true := by decide
  obtain ⟨s, _, hrun, hserves⟩ := exists_run_of_execute hruns
  simp only [Bool.and_eq_true, Option.isNone_iff_eq_none, Worker.isIdle_iff, decide_eq_true_eq,
    List.isEmpty_iff] at hserves
  obtain ⟨⟨⟨⟨hrunning, hidle⟩, hwaiting⟩, hserved⟩, hconfig⟩ := hserves
  have hformats : formatPrompt s.engine.config
      (.arr [.obj [("content", .str "x"), ("role", .str "user")]]) =
        .ok "USER: xASSISTANT: " := by
    rw [hconfig]
    decide
  have hreads : ChatCompletionRequest.fromJson (chatRequest true "x") = .ok
      { stream := true
        messages := .arr [.obj [("content", .str "x"), ("role", .str "user")]]
        stop := .null } := rfl
  obtain ⟨⟨t, hstream⟩, ⟨t', hwhole⟩, _, hagree⟩ := branches_agree (fun _ _ => eAcute)
    (chatRequest true "x") (chatRequest false "x")
    { messages := .arr [.obj [("content", .str "x"), ("role", .str "user")]], stop := .null }
    hrun ⟨hrunning, hidle, hwaiting, hserved⟩ (utf8Vendor_decodes "m") hreads rfl hformats
    eAcute_generates (eAcute_generates.counted hreads eAcute_bounded (by decide))
  exact ⟨s, t, t', hstream, hwhole, hagree t t' hstream hwhole⟩

end System

end CortexOnnx
