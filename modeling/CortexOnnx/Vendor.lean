import CortexOnnx.Json

/-!
# The libraries under the engine

ONNX Runtime GenAI and the JSON writer are not part of the repository.  The objects the engine owns
are records of what they were created from, and what the libraries compute is a parameter.
-/

namespace CortexOnnx

/-- `epoch` is bookkeeping for the proofs: the number of the successful `LoadModel` call the model
belongs to, `none` when a worker restart loaded another path than that call's. -/
structure OgaModel where
  path : String
  epoch : Option Nat
  deriving Repr, DecidableEq

structure OgaTokenizer where
  model : OgaModel
  deriving Repr, DecidableEq

/-- The decoder keeps a state of type `σ` between tokens. -/
structure OgaTokenizerStream (σ : Type) where
  tokenizer : OgaTokenizer
  state : σ

/-- What the libraries compute, for a model loaded from a given path. -/
structure Vendor (σ : Type) where
  encode : String → String → List Int
  decode : String → List Int → String
  streamInit : String → σ
  streamDecode : String → σ → Int → σ × String
  writeString : Json → String

/-- The library calls that can throw. -/
inductive Call where
  | modelCreate
  | tokenizerCreate
  | streamCreate
  | sequencesCreate
  | encode
  | paramsCreate
  | setSearchOption
  | setInputSequences
  | generatorCreate
  | isDone
  | computeLogits
  | generateNextToken
  | getSequence
  | streamDecode
  | generate
  | outputSequence
  | decode
  deriving Repr, DecidableEq

/-- What one step meets outside the engine: the calls that throw, the generator's answers, the
throughput test, the random id and the clock. -/
structure Env where
  fails : Call → Bool := fun _ => false
  isDone : Bool := false
  token : Int := 0
  output : List Int := []
  slow : Bool := false
  randomString : String := ""
  created : Int := 0
  startTime : Nat := 0

end CortexOnnx
