import CortexOnnx.JsonText
import CortexOnnx.Lib.Transducer
import CortexOnnx.Vendor

/-!
# A vendor to run

The libraries are a parameter of the model.  This instance has a byte-level tokenizer, whose stream
holds the bytes of a character back until the last of them arrives, and a compact JSON writer.
-/

namespace CortexOnnx

/-- The number of bytes that a lead byte announces. -/
def sequenceLength (lead : Nat) : Nat :=
  if lead < 0xC0 then 1 else if lead < 0xE0 then 2 else if lead < 0xF0 then 3 else 4

/-- The character of a complete byte sequence. -/
def decodeSequence : List Nat → Char
  | [b₀] => Char.ofNat b₀
  | [b₀, b₁] => Char.ofNat (b₀ % 32 * 64 + b₁ % 64)
  | [b₀, b₁, b₂] => Char.ofNat (b₀ % 16 * 4096 + b₁ % 64 * 64 + b₂ % 64)
  | [b₀, b₁, b₂, b₃] =>
      Char.ofNat (b₀ % 8 * 262144 + b₁ % 64 * 4096 + b₂ % 64 * 64 + b₃ % 64)
  | _ => Char.ofNat 0xFFFD

/-- One byte: the state is the bytes of the character begun. -/
def utf8Step (pending : List Nat) (byte : Nat) : List Nat × String :=
  let bytes := pending ++ [byte]
  -- nothing comes out until the character is whole
  if bytes.length < sequenceLength (bytes.headD 0) then (bytes, "")
  else ([], String.singleton (decodeSequence bytes))

def utf8Bytes (text : String) : List Int :=
  (text.toList.flatMap String.utf8EncodeChar).map fun byte => (byte.toNat : Int)

def utf8Vendor : Vendor (List Nat) where
  encode _ text := utf8Bytes text
  decode _ tokens :=
    (tokens.foldl (fun (state : List Nat × String) token =>
      let next := utf8Step state.1 token.toNat
      (next.1, state.2 ++ next.2)) ([], "")).2
  streamInit _ := []
  streamDecode _ pending token := utf8Step pending token.toNat
  writeString := Json.compact

/-- Decoding a list at once is decoding it byte by byte. -/
theorem utf8Vendor_decodes (path : String) (tokens : List Int) :
    String.join (outputs (utf8Vendor.streamDecode path) (utf8Vendor.streamInit path) tokens) =
      utf8Vendor.decode path tokens := by
  have hall : ∀ (pending : List Nat) (text : String),
      (tokens.foldl (fun (state : List Nat × String) token =>
        let next := utf8Step state.1 token.toNat
        (next.1, state.2 ++ next.2)) (pending, text)).2 =
      text ++ String.join (outputs (utf8Vendor.streamDecode path) pending tokens) := by
    induction tokens with
    | nil =>
        intro pending text
        exact (String.append_empty).symm
    | cons token tokens ih =>
        intro pending text
        rw [List.foldl_cons, ih, outputs_cons, String.join_cons, String.append_assoc]
        rfl
  exact ((hall [] "").trans String.empty_append).symm

/-! ## Requests to run it on -/

def loadRequest (path : String) : Json := .obj [("model_path", .str path)]

def chatRequest (stream : Bool) (content : String) : Json :=
  .obj [("messages", .arr [.obj [("content", .str content), ("role", .str "user")]]),
    ("stream", .bool stream)]

/-- One library call throws. -/
def Env.failing (c : Call) : Env := { fails := fun c' => c' = c }

end CortexOnnx
