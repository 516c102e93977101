import CortexOnnx.ReplyProtocol

/-!
# Stream framing

The data fields of a streaming request, one after the other, as a client reads them: blocks ended by
blank lines, each the prefix `data: ` and a payload, which is a JSON chunk or the end marker.
-/

namespace CortexOnnx

/-! ## Blocks ended by a blank line

A block without a separator of its own can neither end early nor run into the next one, so the
blocks are read back as they were written. -/

section Blocks

variable {α : Type} [DecidableEq α]

/-- The blocks of a text, after some of the first block has been read.  What follows the last blank
line is no block. -/
def blocksFrom (sep : α) : List α → List α → List (List α)
  | block, a :: b :: rest =>
      if a = sep ∧ b = sep then block :: blocksFrom sep [] rest
      else blocksFrom sep (block ++ [a]) (b :: rest)
  | _, _ => []

def blocks (sep : α) (text : List α) : List (List α) := blocksFrom sep [] text

/-- A block as it is written. -/
def ended (sep : α) (block : List α) : List α := block ++ [sep, sep]

theorem blocksFrom_ended {sep : α} {body : List α} (h : sep ∉ body) (block rest : List α) :
    blocksFrom sep block (ended sep body ++ rest) = (block ++ body) :: blocks sep rest := by
  induction body generalizing block with
  | nil =>
    show blocksFrom sep block (sep :: sep :: rest) = _
    rw [blocksFrom, if_pos ⟨rfl, rfl⟩, List.append_nil]
    rfl
  | cons a body ih =>
    have hne : a ≠ sep := fun hsame => h (hsame ▸ List.mem_cons_self)
    have hbody : sep ∉ body := fun hmem => h (List.mem_cons_of_mem _ hmem)
    have hrest : ended sep (a :: body) ++ rest = a :: (ended sep body ++ rest) := rfl
    -- whatever follows, the first character does not start a blank line
    obtain ⟨b, tail, hnext⟩ : ∃ b tail, ended sep body ++ rest = b :: tail := by
      cases body with
      | nil => exact ⟨_, _, rfl⟩
      | cons b body => exact ⟨_, _, rfl⟩
    rw [hrest, hnext, blocksFrom, if_neg (fun hblank => hne hblank.1), ← hnext, ih hbody,
      List.append_assoc]
    rfl

theorem blocks_ended_append {sep : α} {body : List α} (h : sep ∉ body) (rest : List α) :
    blocks sep (ended sep body ++ rest) = body :: blocks sep rest :=
  blocksFrom_ended h [] rest

end Blocks

/-! ## The client's side -/

variable {σ : Type} {vendor : Vendor σ} {parse : String → Option Json}

inductive StreamEvent where
  | chunk (content : String) (finishReason : Json)
  | done

/-- `choices[0].delta.content` and `choices[0].finish_reason`. -/
def readChunk (json : Json) : Option StreamEvent := do
  match ← (json.index "choices").toOption with
  | .arr (choice :: _) =>
      let delta ← (choice.index "delta").toOption
      let finishReason ← (choice.index "finish_reason").toOption
      match ← (delta.index "content").toOption with
      | .str content => return .chunk content finishReason
      | _ => none
  | _ => none

def readEvent (parse : String → Option Json) (block : List Char) : Option StreamEvent := do
  let payload ← block.dropPrefix? "data: ".toList
  if payload = "[DONE]".toList then return .done
  else readChunk (← parse (String.ofList payload))

/-- All events of a stream, if every block is one. -/
def readStream (parse : String → Option Json) (data : String) : Option (List StreamEvent) :=
  (blocks '\n' data.toList).mapM (readEvent parse)

/-- What a client puts together. -/
def StreamEvent.content : StreamEvent → String
  | chunk content _ => content
  | done => ""

/-- What the engine relies on in the JSON library: a chunk is written as one line, from which it is
parsed back, and the end marker is no JSON text. -/
structure LineCodec (writeString : Json → String) (parse : String → Option Json) : Prop where
  oneLine : ∀ created id model content reason, reason = .null ∨ reason = .str "stop" →
    '\n' ∉ (writeString (returnJson created id model content reason)).toList
  parses : ∀ created id model content reason, reason = .null ∨ reason = .str "stop" →
    parse (writeString (returnJson created id model content reason)) =
      some (returnJson created id model content reason)
  marker : parse "[DONE]" = none

/-! ## One write -/

/-- The block of a payload. -/
def dataBlock (payload : List Char) : List Char := "data: ".toList ++ payload

-- proved by `rfl`, as the equation that `rw` derives from the definition is slow to check
theorem dataBlock_eq_append (payload : List Char) :
    dataBlock payload = "data: ".toList ++ payload := rfl

theorem newline_not_mem_dataBlock {payload : List Char} (h : '\n' ∉ payload) :
    '\n' ∉ dataBlock payload := by
  intro hmem
  rcases List.mem_append.mp hmem with hmem | hmem
  · exact absurd hmem (by decide)
  · exact h hmem

theorem readEvent_dataBlock (payload : List Char) : readEvent parse (dataBlock payload) =
    if payload = "[DONE]".toList then some .done
    else (parse (String.ofList payload)).bind readChunk := by
  rw [readEvent, dataBlock_eq_append, List.dropPrefix?_append_of_beq _ (by simp)]
  rfl

/-- The payload of a chunk. -/
def chunkPayload (vendor : Vendor σ) (env : Env) (content : String) (reason : Json) : List Char :=
  (createReturnJson vendor env env.randomString "_" content reason).toList

theorem chunkData_toList (env : Env) (content : String) : (chunkData vendor env content).toList =
    ended '\n' (dataBlock (chunkPayload vendor env content .null)) := by
  simp [chunkData, ended, dataBlock_eq_append, chunkPayload]

theorem stopData_toList (env : Env) : (stopData vendor env).toList =
    ended '\n' (dataBlock (chunkPayload vendor env "" (.str "stop"))) ++
      ended '\n' (dataBlock "[DONE]".toList) := by
  simp [stopData, ended, dataBlock_eq_append, chunkPayload]

theorem readChunk_returnJson (created : Int) (id model content : String) (reason : Json) :
    readChunk (returnJson created id model content reason) = some (.chunk content reason) := rfl

variable (vendor) in
/-- A chunk is not taken for the end marker, whatever its content. -/
theorem readEvent_chunk (codec : LineCodec vendor.writeString parse) (env : Env) (content : String)
    {reason : Json} (h : reason = .null ∨ reason = .str "stop") :
    readEvent parse (dataBlock (chunkPayload vendor env content reason)) =
      some (.chunk content reason) := by
  have hparse := codec.parses env.created env.randomString "_" content reason h
  -- a chunk parses and the marker does not, so they differ
  have hne : chunkPayload vendor env content reason ≠ "[DONE]".toList := by
    intro hmarker
    have hsame : createReturnJson vendor env env.randomString "_" content reason = "[DONE]" :=
      String.toList_inj.mp hmarker
    rw [createReturnJson] at hsame
    rw [hsame, codec.marker] at hparse
    cases hparse
  rw [readEvent_dataBlock, if_neg hne, chunkPayload, String.ofList_toList, createReturnJson, hparse,
    Option.bind_some, readChunk_returnJson]

variable (vendor) in
theorem newline_not_mem_chunk (codec : LineCodec vendor.writeString parse) (env : Env)
    (content : String) {reason : Json} (h : reason = .null ∨ reason = .str "stop") :
    '\n' ∉ dataBlock (chunkPayload vendor env content reason) :=
  newline_not_mem_dataBlock (codec.oneLine _ _ _ _ _ h)

/-! ## A whole stream -/

/-- The data fields of the callbacks, in order. -/
def dataFields (told : List Event) : List String :=
  (replies told).filterMap fun reply => (dataField reply.2).toOption

/-- The callbacks say that the stream ended normally. -/
def stopped (told : List Event) : Bool := (replies told).any fun reply => reply.1 = .streamStop

def Event.stops : Event → Bool
  | .callback _ status _ => status = .streamStop
  | _ => false

theorem stopped_eq_any (told : List Event) : stopped told = told.any Event.stops := by
  rw [stopped, replies, List.any_filterMap]
  congr 1
  funext e
  cases e <;> rfl

theorem stopped_append (before after : List Event) :
    stopped (before ++ after) = (stopped before || stopped after) := by
  rw [stopped_eq_any, stopped_eq_any, stopped_eq_any, List.any_append]

/-- Uses of handles end no stream. -/
theorem uses_any {id : Nat} {epoch : Option Nat} {uses : List Event} (h : Uses id epoch uses) :
    uses.any Event.stops = false := by
  apply List.any_eq_false.mpr
  intro e he
  rcases h e he with rfl | rfl <;> exact Bool.false_ne_true

def chunkEvents (texts : List String) : List StreamEvent := texts.map (StreamEvent.chunk · .null)

/-- The events of a stream: a chunk for each text and, at a normal end, an empty one with the finish
reason and the end marker. -/
def streamEvents (texts : List String) (stopped : Bool) : List StreamEvent :=
  chunkEvents texts ++ if stopped then [.chunk "" (.str "stop"), .done] else []

theorem done_mem_streamEvents {texts : List String} {stopped : Bool} :
    .done ∈ streamEvents texts stopped ↔ stopped = true := by
  have hchunks : .done ∉ chunkEvents texts := by
    intro hmem
    obtain ⟨text, _, hchunk⟩ := List.mem_map.mp hmem
    cases hchunk
  cases stopped <;> simp [streamEvents, hchunks]

theorem content_streamEvents (texts : List String) (stopped : Bool) :
    String.join ((streamEvents texts stopped).map StreamEvent.content) = String.join texts := by
  have hchunks : (chunkEvents texts).map StreamEvent.content = texts := by
    rw [chunkEvents, List.map_map]
    exact List.map_id texts
  cases stopped <;> simp [streamEvents, hchunks, StreamEvent.content]

/-- The chunks of a stream. -/
theorem mapM_chunks (codec : LineCodec vendor.writeString parse) {chunks : List (Status × Json)}
    {texts : List String} (h : List.Forall₂ (IsChunk vendor) chunks texts) (rest : List Char) :
    (blocks '\n'
      ((chunks.filterMap fun reply => (dataField reply.2).toOption).flatMap String.toList ++
        rest)).mapM (readEvent parse) =
        ((blocks '\n' rest).mapM (readEvent parse)).map (chunkEvents texts ++ ·) := by
  -- on the chunks: each write is one block, which leaves the rest of the text to read
  induction h with
  | nil => simp [chunkEvents]
  | @cons chunk text chunks texts hchunk _ ih =>
    obtain ⟨env, rfl⟩ := hchunk
    have hline := newline_not_mem_chunk vendor codec env text (Or.inl rfl)
    have hevent := readEvent_chunk vendor codec env text (Or.inl rfl)
    have hfields : ((.chunk, dataBody (chunkData vendor env text)) :: chunks).filterMap
        (fun reply : Status × Json => (dataField reply.2).toOption) =
          chunkData vendor env text :: chunks.filterMap fun reply => (dataField reply.2).toOption :=
      rfl
    rw [hfields, List.flatMap_cons, chunkData_toList, List.append_assoc, blocks_ended_append hline,
      List.mapM_cons, hevent, ih]
    cases (blocks '\n' rest).mapM (readEvent parse) <;> rfl

/-- The last write of a stream. -/
theorem mapM_ending (codec : LineCodec vendor.writeString parse) {reply : Status × Json}
    (h : Ending vendor true reply) :
    ∃ data, dataField reply.2 = .ok data ∧ (blocks '\n' data.toList).mapM (readEvent parse) =
      some (streamEvents [] (reply.1 = .streamStop)) := by
  cases h with
  | generated whole => cases whole
  | stopped env =>
    have hline := newline_not_mem_chunk vendor codec env "" (Or.inr rfl)
    have hevent := readEvent_chunk vendor codec env "" (Or.inr rfl)
    -- the last write holds two blocks
    have hmarker : '\n' ∉ dataBlock "[DONE]".toList := by decide
    have hdone : readEvent parse (dataBlock "[DONE]".toList) = some .done := by
      rw [readEvent_dataBlock, if_pos rfl]
    have hlast : blocks '\n' (ended '\n' (dataBlock "[DONE]".toList)) =
        [dataBlock "[DONE]".toList] := by
      rw [← List.append_nil (ended _ _), blocks_ended_append hmarker]
      rfl
    refine ⟨_, rfl, ?_⟩
    rw [stopData_toList, blocks_ended_append hline, hlast, List.mapM_cons, hevent, List.mapM_cons,
      hdone]
    rfl
  -- both data fields are empty, so the client reads no further event
  | unloaded => exact ⟨_, rfl, rfl⟩
  | failed => exact ⟨_, rfl, rfl⟩

theorem stopped_chunks {chunks : List (Status × Json)} {texts : List String}
    (h : List.Forall₂ (IsChunk vendor) chunks texts) :
    (chunks.any fun reply => reply.1 = .streamStop) = false := by
  apply List.any_eq_false.mpr
  intro reply hreply
  rw [chunks_status h reply hreply]
  decide

/-- A transcript whose end, if it has one, is that of a stream. -/
theorem readStream_transcript (codec : LineCodec vendor.writeString parse) {told : List Event}
    {last : List (Status × Json)} (h : Transcript vendor told last)
    (hlast : last = [] ∨ ∃ reply, last = [reply] ∧ Ending vendor true reply) :
    readStream parse (String.join (dataFields told)) =
      some (streamEvents (texts told) (stopped told)) := by
  obtain ⟨chunks, hreplies, hchunks⟩ := h
  have hstopped := stopped_chunks hchunks
  rcases hlast with rfl | ⟨reply, rfl, hending⟩
  · have hread := mapM_chunks codec hchunks []
    rw [readStream, String.toList_join, dataFields, stopped, hreplies, List.append_nil, hstopped]
    rw [List.append_nil] at hread
    rw [hread]
    rfl
  · obtain ⟨data, hfield, hread⟩ := mapM_ending codec hending
    have hdata : ([reply].filterMap fun reply => (dataField reply.2).toOption) = [data] := by
      rw [List.filterMap_cons, hfield]
      rfl
    rw [readStream, String.toList_join, dataFields, stopped, hreplies, List.filterMap_append,
      List.flatMap_append, hdata, List.flatMap_singleton, mapM_chunks codec hchunks, hread,
      List.any_append, hstopped, Option.map_some, streamEvents, streamEvents, List.any_cons,
      List.any_nil, Bool.or_false, Bool.false_or]
    rfl

namespace System

/-- The step is the last of the loop task of request `id`. -/
def finishes (id : Nat) (s : System σ) : Act → Bool
  | .finish _ => s.worker.task?.any fun task => task.id = id
  | _ => false

/-- A step tells a request that its stream is over exactly when it is the last of its task. -/
theorem Transition.stopped_about {s t : System σ} {act : Act} (ht : Transition vendor s act t)
    (id : Nat) : stopped (about Event.subject? id t.log) =
      (stopped (about Event.subject? id s.log) || s.finishes id act) := by
  have hquiet {events : List Event} (log : t.log = s.log ++ events)
      (quiet : events.any Event.stops = false) (goesOn : s.finishes id act = false) :
      stopped (about Event.subject? id t.log) =
        (stopped (about Event.subject? id s.log) || s.finishes id act) := by
    have hnone : stopped (about Event.subject? id events) = false := by
      rw [stopped_eq_any]
      apply List.any_eq_false.mpr
      intro e he
      exact List.any_eq_false.mp quiet e (mem_about.mp he).1
    rw [log, about_append, stopped_append, hnone, goesOn]
  cases ht with
  | @finished env task at_ =>
    have hlast : s.finishes id (.finish env) = decide (task.id = id) := by
      simp [finishes, at_, Worker.task?]
    rw [moves_log, about_append, stopped_append, hlast]
    by_cases hid : task.id = id
    · simp [about, stopReply, Event.subject?, hid, stopped_eq_any, Event.stops]
    · simp [about, stopReply, Event.subject?, hid, stopped_eq_any]
  | turned | loopLeft | turnFaulted | loadThrew | loaded | unloadRefused | unloaded | chatRefused
  | chatThrew | chatQueued | chatFaulted | embedding | modelStatus | models | streamStarted
  | generated | startFaulted | leftUnloaded | leftLoaded | tornDown | fastEnough | reloaded
  | reloadFailed => exact hquiet rfl rfl rfl
  | loadFailed reads throws told =>
    rcases told with rfl | rfl
    · exact hquiet rfl rfl rfl
    · exact hquiet rfl rfl rfl
  | startFailed idle queues throws used | turnFailed at_ throws used =>
    obtain ⟨epoch, huses⟩ := used.uses
    exact hquiet rfl (by rw [List.any_append, uses_any huses]; rfl) rfl
  | generateFaulted idle queues holds whole succeeds used =>
    obtain ⟨epoch, huses⟩ := used.uses
    exact hquiet rfl (uses_any huses) rfl

theorem run_stopped {grain : Grain} {startTime : Nat} {maxHistoryChat : Int}
    {es : List (System σ × Act)} {t : System σ}
    (hrun : Run (step vendor grain) (fresh startTime maxHistoryChat) es t) (id : Nat) :
    stopped (about Event.subject? id t.log) = es.any fun e => e.1.finishes id e.2 := by
  induction hrun with
  | nil => rfl
  | snoc before taken ih =>
    rw [((run_ledger before).1.transition taken).stopped_about, ih, List.any_append, List.any_cons,
      List.any_nil, Bool.or_false]

/-- What a client reads from the data fields of request `id`, when the steps `es` have led to state
`t`. -/
def Framed (parse : String → Option Json) (id : Nat) (es : List (System σ × Act))
    (t : System σ) : Prop :=
  let told := about Event.subject? id t.log
  ∃ events, readStream parse (String.join (dataFields told)) = some events ∧
    events = streamEvents (texts told) (stopped told) ∧
    (.done ∈ events ↔ stopped told = true) ∧
    (stopped told = true ↔ ∃ e ∈ es, e.1.finishes id e.2 = true) ∧
    String.join (events.map StreamEvent.content) = String.join (texts told)

/-- **Stream framing** round trip, at any point of any run: a client that reads the data fields of a
streaming request finds a chunk for each decoded text, in order and with its content, and after them
the empty chunk with the finish reason and the end marker exactly when the request ended normally,
with the last step of its task. -/
theorem handleChatCompletion_framing {grain : Grain} {startTime : Nat} {maxHistoryChat : Int}
    {es : List (System σ × Act)} {s t : System σ} {jsonBody : Json} {task : Task}
    (codec : LineCodec vendor.writeString parse)
    (hrun : Run (step vendor grain) (fresh startTime maxHistoryChat) es t)
    (call : (s, .handleChatCompletion jsonBody) ∈ es) (set : s.engine.modelLoaded = true)
    (forms : formTask s.engine.config s.next jsonBody = .ok task)
    (stream : task.req.stream = true) : t.Framed parse s.next es := by
  obtain ⟨rest, last, habout, htranscript, hends, _⟩ := run_streamed hrun call set forms stream
  have hread := readStream_transcript codec htranscript hends
  -- the admission itself is not a callback
  have hsame : dataFields (about Event.subject? s.next t.log) = dataFields rest ∧
      stopped (about Event.subject? s.next t.log) = stopped rest ∧
      texts (about Event.subject? s.next t.log) = texts rest := by
    rw [habout]
    exact ⟨rfl, rfl, rfl⟩
  refine ⟨streamEvents (texts rest) (stopped rest), ?_, ?_, ?_, ?_, ?_⟩
  · rw [hsame.1]
    exact hread
  · rw [hsame.2.1, hsame.2.2]
  · rw [hsame.2.1]
    exact done_mem_streamEvents
  · rw [run_stopped hrun s.next, List.any_eq_true]
  · rw [hsame.2.2]
    exact content_streamEvents _ _

/-- Two tokens, one of them a newline, and a normal end. -/
def streamedNewline : List Act :=
  [.loadModel {} (loadRequest "m"), .handleChatCompletion (chatRequest true "x"), .start {},
    .iterate { token := 10 }, .iterate { token := 34 }, .iterate { isDone := true }, .postLoop,
    .throughput {}, .finish {}]

theorem compact_lineCodec : LineCodec Json.compact Json.parse := by
  have hexact : ∀ created id model content reason, reason = Json.null ∨ reason = .str "stop" →
      (returnJson created id model content reason).exact = true := by
    intro created id model content reason hreason
    rcases hreason with rfl | rfl <;> rfl
  constructor
  · intro created id model content reason hreason
    exact Json.newline_not_mem_compact (hexact created id model content reason hreason)
  · intro created id model content reason hreason
    exact Json.parse_compact (hexact created id model content reason hreason)
  · decide

theorem framing_of_streamedNewline : ∃ s t,
    execute (step utf8Vendor .fine) (fresh 0 0) streamedNewline = some t ∧
      (s, .handleChatCompletion (chatRequest true "x")) ∈
        trace (step utf8Vendor .fine) (fresh 0 0) streamedNewline ∧
      t.Framed Json.parse s.next (trace (step utf8Vendor .fine) (fresh 0 0) streamedNewline) := by
  have hruns : (execute (step utf8Vendor .fine) (fresh 0 0) streamedNewline).any
      (fun t => t.fault.isNone) = true := by decide
  obtain ⟨t, hexecute, hrun, _⟩ := exists_run_of_execute hruns
  have hcall : ∃ s task, (s, .handleChatCompletion (chatRequest true "x")) ∈
      trace (step utf8Vendor .fine) (fresh 0 0) streamedNewline ∧ s.engine.modelLoaded = true ∧
      formTask s.engine.config s.next (chatRequest true "x") = .ok task ∧
      task.req.stream = true := ⟨_, _, List.Mem.tail _ (List.Mem.head _), rfl, rfl, rfl⟩
  obtain ⟨s, task, hcall, hset, hforms, hstream⟩ := hcall
  exact ⟨s, t, hexecute, hcall,
    handleChatCompletion_framing compact_lineCodec hrun hcall hset hforms hstream⟩

end System

end CortexOnnx
