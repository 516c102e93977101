import CortexOnnx.Engine

/-!
# The prompt loop of `HandleChatCompletion`

The window test is 32-bit `int` arithmetic, taken modulo `2 ^ 32` where it overflows.
-/

namespace CortexOnnx

/-- The value of a 32-bit `int` computation. -/
def toInt32 (x : Int) : Int := x.bmod (2 ^ 32)

theorem toInt32_of_fits {x : Int} (low : Json.minInt ≤ x) (high : x ≤ Json.maxInt) :
    toInt32 x = x := by
  unfold Json.minInt at low
  unfold Json.maxInt at high
  unfold toInt32
  apply Int.bmod_eq_of_le <;> omega

theorem toInt32_spec (x : Int) :
    ∃ k : Int, toInt32 x = x - 2 ^ 32 * k ∧ -2 ^ 31 ≤ toInt32 x ∧ toInt32 x < 2 ^ 31 := by
  unfold toInt32
  refine ⟨x.bdiv (2 ^ 32), Int.bmod_eq_self_sub_mul_bdiv x (2 ^ 32), ?_, ?_⟩
  · have hlow := Int.le_bmod (x := x) (m := 2 ^ 32) (by decide)
    omega
  · have hhigh := Int.bmod_lt (x := x) (m := 2 ^ 32) (by decide)
    omega

/-- The locals of the loop: `formatted_output` and `index`. -/
structure PromptState where
  formattedOutput : String
  index : Int
  deriving Repr, DecidableEq

/-- `index > static_cast<int>(req.messages.size()) - history_max` -/
def inWindow (index : Int) (size : Nat) (historyMax : Int) : Bool :=
  index > toInt32 (toInt32 size - historyMax)

/-- One iteration of the loop. -/
def promptStep (config : Config) (size : Nat) (historyMax : Int) (state : PromptState)
    (message : Json) : Except String PromptState := do
  let inputRole ← (← message.index "role").asString
  let content ← (← message.index "content").asString
  let formattedOutput :=
    if inputRole = "user" then
      if inWindow state.index size historyMax then
        state.formattedOutput ++ (config.userPrompt ++ content)
      else state.formattedOutput
    else if inputRole = "assistant" then
      if inWindow state.index size historyMax then
        state.formattedOutput ++ (config.aiPrompt ++ content)
      else state.formattedOutput
    else if inputRole = "system" then
      -- no window test, and the rule goes to the front
      config.systemPrompt ++ content ++ state.formattedOutput
    else
      -- an unknown role is written out itself, again without a window test
      state.formattedOutput ++ (inputRole ++ content)
  return { formattedOutput, index := toInt32 (state.index + 1) }

/-- The whole loop and the line after it. -/
def formatPrompt (config : Config) (messages : Json) : Except String String := do
  let historyMax := toInt32 (config.maxHistoryChat * 2)
  let elements := messages.elements
  let final ← elements.foldlM (promptStep config elements.length historyMax)
    { formattedOutput := config.prePrompt, index := 0 }
  return final.formattedOutput ++ config.aiPrompt

end CortexOnnx
