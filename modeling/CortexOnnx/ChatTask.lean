import CortexOnnx.Prompt

/-!
# Chat completions

`HandleChatCompletion` and the task it queues.  The task is cut where the client's handlers may run
in between: before the loop test of a stream, before the test after the loop, before the throughput
test, inside the restart after `model_loaded_ = false`, and before the last callback.
-/

namespace CortexOnnx

section

variable {σ : Type} (vendor : Vendor σ)

/-- `q_->runTaskInQueue(task)` -/
def runTaskInQueue (task : Task) : EngineM σ Unit := do
  -- `q_` is null until the first `LoadModel` has succeeded
  let queue ← Prog.deref .nullQueue (← getEngine).q
  modifyEngine fun e => { e with q := some { queue with tasks := queue.tasks ++ [task] } }
  emit (.queued task.id)

def handleChatCompletion (id : Nat) (jsonBody : Json) : EngineM σ Unit := do
  if ← checkModelLoaded id then
    let req ← Prog.lift (ChatCompletionRequest.fromJson jsonBody)
    -- read a second time and not used
    let _isStream ← Prog.lift (do (← jsonBody.get "stream" (.bool false)).asBool)
    let formattedOutput ← Prog.lift (formatPrompt (← getEngine).config req.messages)
    runTaskInQueue { id, formattedOutput, req }

/-! ## Uses of the handles -/

def useModel (id : Nat) : EngineM σ OgaModel := do
  let model ← Prog.deref .nullModel (← getEngine).ogaModel
  emit (.used id model.epoch)
  return model

def useTokenizer (id : Nat) : EngineM σ OgaTokenizer := do
  let tokenizer ← Prog.deref .nullTokenizer (← getEngine).tokenizer
  emit (.used id tokenizer.model.epoch)
  return tokenizer

def useTokenizerStream (id : Nat) : EngineM σ (OgaTokenizerStream σ) := do
  let stream ← Prog.deref .nullTokenizerStream (← getEngine).tokenizerStream
  emit (.used id stream.tokenizer.model.epoch)
  return stream

/-! ## The pieces of the task -/

/-- Both branches start alike: encode the prompt and set up the generator's parameters.  The result
is the input sequence. -/
def prepare (env : Env) (task : Task) : EngineM σ (List Int) := do
  call env .sequencesCreate
  let tokenizer ← useTokenizer task.id
  call env .encode
  let sequences := vendor.encode tokenizer.model.path task.formattedOutput
  let _ ← useModel task.id
  call env .paramsCreate
  call env .setSearchOption
  call env .setInputSequences
  return sequences

/-- The streaming branch up to its first loop test.  The result is the generator's sequence. -/
def streamStart (env : Env) (task : Task) : EngineM σ (List Int) := do
  let sequences ← prepare vendor env task
  let _ ← useModel task.id
  call env .generatorCreate
  return sequences

/-- One turn of the streaming loop, its guard included: the grown sequence, or `none` when the
guard ends the loop. -/
def streamIterate (env : Env) (task : Task) (sequence : List Int) :
    EngineM σ (Option (List Int)) := do
  call env .isDone
  if !env.isDone && (← getEngine).modelLoaded then
    call env .computeLogits
    call env .generateNextToken
    let sequence := sequence ++ [env.token]
    call env .getSequence
    -- an `int32_t`, and exact: `max_length` is one as well, and bounds the sequence
    let numTokens := sequence.length
    -- `GetSequenceData(0)[num_tokens - 1]`
    let newToken ← Prog.deref .outOfBounds sequence[numTokens - 1]?
    let stream ← useTokenizerStream task.id
    call env .streamDecode
    let (state, outString) := vendor.streamDecode stream.tokenizer.model.path stream.state newToken
    modifyEngine fun e => { e with tokenizerStream := some { stream with state } }
    emit (.decoded task.id newToken outString)
    callback task.id .chunk (dataBody (chunkData vendor env outString))
    return some sequence
  else
    return none

/-- The test after the loop: whether the task goes on. -/
def streamPostLoop (task : Task) : EngineM σ Bool := do
  -- read again, so an unload after the last turn counts as well
  if (← getEngine).modelLoaded then
    return true
  callback task.id .streamUnloaded (dataBody "")
  return false

/-- The throughput test and, when it fails, the teardown of the restart. -/
def streamThroughput (env : Env) : EngineM σ Bool := do
  if env.slow then
    modifyEngine fun e => { e with maxHistoryChat := max 1 (e.maxHistoryChat.tdiv 2) }
    resetHandles
    -- a handler call that runs now finds the flag clear
    modifyEngine fun e => { e with modelLoaded := false }
    emit .restarting
    return true
  else
    return false

/-- The rest of the restart.  The new model and tokenizer are dereferenced by the two calls that
create the next handle from them. -/
def streamReload (env : Env) (task : Task) : EngineM σ Unit := do
  let w ← Prog.read
  let epoch := restartEpoch w.log w.engine.path
  -- `path_` as it is now, which a rejected `LoadModel` may have changed
  createHandles vendor env w.engine.path epoch
  emit (.used task.id epoch)
  emit .restarted
  modifyEngine fun e => { e with modelLoaded := true, startTime := env.startTime }
  ensureQueue

def streamFinish (env : Env) (task : Task) : EngineM σ Unit :=
  callback task.id .streamStop (dataBody (stopData vendor env))

/-- The non-streaming branch.  The subtraction is on `size_t`, and `Decode` reads the range it is
given. -/
def generateAll (env : Env) (task : Task) : EngineM σ Unit := do
  let sequences ← prepare vendor env task
  let _ ← useModel task.id
  call env .generate
  emit (.generated task.id)
  call env .outputSequence
  -- wraps around when the output is shorter than the prompt
  let outputSequenceLength := (env.output.length + 2 ^ 64 - sequences.length) % 2 ^ 64
  let tokenizer ← useTokenizer task.id
  call env .decode
  let outputSequenceData ← Prog.deref .outOfBounds
    (if sequences.length + outputSequenceLength ≤ env.output.length then
      some ((env.output.drop sequences.length).take outputSequenceLength) else none)
  let toSend := vendor.decode tokenizer.model.path outputSequenceData
  callback task.id .ok
    (createFullReturnJson env.created env.randomString "_" toSend "_" 0 0)

/-- The `catch` block around the whole task. -/
def inferenceFailed (task : Task) : EngineM σ Unit := do
  -- `model_loaded_` stays as it was
  resetHandles
  emit (.inferenceError task.id)
  callback task.id (.failure k500InternalServerError) (messageBody "Error during inference")

end

end CortexOnnx
