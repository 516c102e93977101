import CortexOnnx.Server.ChunkedTransfer
import CortexOnnx.Server.Outcomes
import CortexOnnx.StreamFraming
import CortexOnnx.Utf8Vendor

/-!
# What the client receives

The strings that a content provider offers, as bytes through the chunked sink, and read by a client
on the other side of the connection.  The client gets the whole stream of a request or it sees that
the transfer is broken, whatever the connection does.
-/

namespace CortexOnnx

variable {σ : Type} {vendor : Vendor σ} {parse : String → Option Json}

/-- The bytes behind `str.c_str()`. -/
def utf8 (str : String) : Bytes := str.toByteArray.data.toList

/-- What a client does with the body of a streamed response. -/
def receive (parse : String → Option Json) (input : Bytes) : Option (List StreamEvent) := do
  let (body, _) ← readContentChunked input
  let data ← String.fromUTF8? ⟨body.toArray⟩
  readStream parse data

/-- The writes of a provider, over a connection that treats the `i`th of them as `faults i` says. -/
def DataSink.writes (sink : DataSink) (faults : Nat → Option Nat) : List (Bytes × Option Nat) :=
  sink.offered.zipIdx.map fun (str, i) => (utf8 str, faults i)

/-- What has become of the provider's calls of its sink. -/
def DataSink.transmit (sink : DataSink) (faults : Nat → Option Nat) (fault fault' : Option Nat) :
    ChunkSink :=
  (fun s => s.done fault fault')^[sink.dones]
    ((sink.writes faults).foldl (fun s entry => s.write entry.1 entry.2) .opened)

theorem utf8_append (a b : String) : utf8 (a ++ b) = utf8 a ++ utf8 b := by
  rw [utf8, String.toByteArray_append, ByteArray.data_append, Array.toList_append]
  rfl

theorem utf8_join (strs : List String) : utf8 (String.join strs) = (strs.map utf8).flatten := by
  induction strs with
  | nil => rfl
  | cons str strs ih => rw [String.join_cons, utf8_append, ih, List.map_cons, List.flatten_cons]

theorem fromUTF8_utf8 (str : String) : String.fromUTF8? ⟨(utf8 str).toArray⟩ = some str := by
  have hbytes : (⟨(utf8 str).toArray⟩ : ByteArray) = str.toByteArray := rfl
  rw [hbytes, String.fromUTF8?, dif_pos str.isValidUTF8]
  rfl

theorem DataSink.map_writes (sink : DataSink) (faults : Nat → Option Nat) :
    (sink.writes faults).map Prod.fst = sink.offered.map utf8 := by
  have hfst : (sink.offered.zipIdx.map Prod.fst).map utf8 = sink.offered.map utf8 := by
    rw [List.zipIdx_map_fst]
  rw [writes, List.map_map, ← hfst, List.map_map]
  rfl

/-- The strings of replies that have one are their data fields. -/
theorem dataFields_eq_map {told : List Event}
    (h : ∀ reply ∈ replies told, ∃ str, dataField reply.2 = .ok str) :
    dataFields told = (replies told).map replyData := by
  rw [dataFields, ← List.filterMap_eq_map]
  apply List.filterMap_congr
  intro reply hreply
  obtain ⟨str, hstr⟩ := h reply hreply
  rw [Function.comp_apply, replyData, hstr]
  rfl

/-- At any time a client could read what a stream has been told. -/
theorem Asked.framed {s : System σ} {id : Nat} (h : Asked vendor s id true)
    (ledger : s.Ledger vendor) (codec : LineCodec vendor.writeString parse) :
    readStream parse
        (String.join ((replies (about Event.subject? id s.log)).map replyData)) =
      some (streamEvents (texts (about Event.subject? id s.log))
        (stopped (about Event.subject? id s.log))) := by
  rw [← dataFields_eq_map (h.readable ledger)]
  rcases h.origin with ⟨hadmitted, hendings⟩ | hrecord | hrecord
  · obtain ⟨rest, habout, _, last, htranscript, hshape, _⟩ := ledger.replied id hadmitted
    rw [habout] at hendings ⊢
    refine readStream_transcript codec htranscript ?_
    rcases hshape with rfl | ⟨status, body, hterminal, rfl⟩
    · exact .inl rfl
    · refine .inr ⟨_, rfl, hendings _ ?_ hterminal⟩
      obtain ⟨chunks, hreplies, _⟩ := htranscript
      show (status, body) ∈ replies rest
      rw [hreplies]
      simp
  -- neither leaves a block
  · rw [hrecord]
    rfl
  · rw [hrecord]
    rfl

/-- What a client receives from a provider whose request was told these events: all of it when the
provider has returned and nothing failed, and otherwise nothing that it takes for a stream. -/
structure Received (parse : String → Option Json) (told : List Event) (provider : ContentProvider)
    (sink : ChunkSink) : Prop where
  whole : provider.point = .returned → sink.ok = true →
    receive parse sink.sent = some (streamEvents (texts told) (stopped told))
  broken : ¬(provider.point = .returned ∧ sink.ok = true) → receive parse sink.sent = none

namespace Server

theorem Attends.dones {s : Server σ} (h : s.Attends vendor) {id : Nat} {provider : ContentProvider}
    (hhandler : .providing id provider ∈ s.handlers) (hruns : provider.point ≠ .returned) :
    provider.sink.dones = 0 := by
  obtain ⟨_, taken, htook, _⟩ := h.attended _ hhandler
  obtain ⟨hmost, hone⟩ := htook.dones (h.provided hhandler).calm
  have hnotOne : provider.sink.dones ≠ 1 := fun hdones => hruns (hone.mp hdones)
  omega

/-- **From the engine to the client**, in any run and over any connection: once the content provider
has returned, the client has either received the stream of all that the request was told or it has
seen the transfer fail, and before that it accepts nothing. -/
theorem run_received {startTime : Nat} {maxHistoryChat : Int} {es : List (Server σ × Act)}
    {t : Server σ} (codec : LineCodec vendor.writeString parse)
    (hrun : Run (step vendor) (fresh startTime maxHistoryChat) es t) {id : Nat}
    {provider : ContentProvider} (hhandler : .providing id provider ∈ t.handlers)
    (hsize : ∀ str ∈ provider.sink.offered, (utf8 str).length < ulongMax)
    (faults : Nat → Option Nat) (fault fault' : Option Nat) :
    Received parse (about Event.subject? id t.engine.log) provider
      (provider.sink.transmit faults fault fault') := by
  have hattends := run_attends hrun
  have hmap := provider.sink.map_writes faults
  have hwrites : ∀ entry ∈ provider.sink.writes faults, entry.1.length < ulongMax := by
    intro entry hentry
    have hmem : entry.1 ∈ (provider.sink.writes faults).map Prod.fst := List.mem_map_of_mem hentry
    rw [hmap] at hmem
    obtain ⟨str, hstr, hbytes⟩ := List.mem_map.mp hmem
    rw [← hbytes]
    exact hsize str hstr
  by_cases hreturned : provider.point = .returned
  · obtain ⟨hoffered, hdones, _⟩ := (hattends.provided hhandler).complete hreturned
    have hsent : provider.sink.transmit faults fault fault' =
        .provide (provider.sink.writes faults) fault fault' := by
      rw [DataSink.transmit, hdones]
      rfl
    rw [hsent]
    constructor
    · intro _ hok
      have hread := ChunkSink.readContentChunked_whole hwrites hok []
      obtain ⟨hasked, _⟩ := hattends.attended _ hhandler
      rw [List.append_nil, hmap, ← utf8_join, hoffered] at hread
      rw [receive, hread]
      show (String.fromUTF8? _).bind _ = _
      rw [fromUTF8_utf8]
      exact hasked.framed hattends.ledger codec
    · intro hnot
      have hfailed : (ChunkSink.provide (provider.sink.writes faults) fault fault').ok = false := by
        simpa [hreturned] using hnot
      rw [receive, ChunkSink.readContentChunked_broken hwrites hfailed]
      rfl
  · have hsent : provider.sink.transmit faults fault fault' =
        (provider.sink.writes faults).foldl (fun s entry => s.write entry.1 entry.2) .opened := by
      rw [DataSink.transmit, hattends.dones hhandler hreturned]
      rfl
    rw [hsent]
    refine ⟨fun hnow => absurd hnow hreturned, fun _ => ?_⟩
    rw [receive, ChunkSink.readContentChunked_undone (ChunkSink.wrote_foldl _) hwrites]
    rfl

/-- One token and a normal end, all of it provided. -/
def wholeStream : List Act :=
  [.request ⟨.loadModel, .ok (loadRequest "m")⟩ {},
    .request ⟨.completions, .ok (chatRequest true "x")⟩ {},
    .work (.start {}), .work (.iterate { token := 104 }), .work (.iterate { isDone := true }),
    .work .postLoop, .work (.throughput {}), .work (.finish {})] ++
    List.replicate 6 (.proceed 1 true)

/-- A provider that has returned, with strings that are not too long. -/
def hasProvided : Handler → Bool
  | .providing _ provider => provider.point matches .returned &&
      provider.sink.offered.all fun str => (utf8 str).length < ulongMax
  | _ => false

/-- The connection breaks within the second write. -/
theorem received_of_wholeStream : ∃ es t id provider,
    Run (step utf8Vendor) (fresh 0 0) es t ∧ .providing id provider ∈ t.handlers ∧
      provider.point = .returned ∧
      Received Json.parse (about Event.subject? id t.engine.log) provider
        (provider.sink.transmit (fun i => if i = 1 then some 7 else none) none none) := by
  have hruns : (execute (step utf8Vendor) (fresh 0 0) wholeStream).any
      (fun t => t.handlers.any hasProvided) = true := by decide +kernel
  obtain ⟨t, _, hrun, hany⟩ := exists_run_of_execute hruns
  obtain ⟨handler, hhandler, hprovided⟩ := List.any_eq_true.mp hany
  cases handler with
  | failed | responded | popping => cases hprovided
  | providing id provider =>
    obtain ⟨hreturned, hsizes⟩ := Bool.and_eq_true_iff.mp hprovided
    have hsize : ∀ str ∈ provider.sink.offered, (utf8 str).length < ulongMax := by
      intro str hstr
      exact of_decide_eq_true (List.all_eq_true.mp hsizes str hstr)
    have hpoint : provider.point = .returned := by
      revert hreturned
      cases provider.point <;> intro hmatches <;> first | rfl | cases hmatches
    exact ⟨_, t, id, provider, hrun, hhandler, hpoint,
      run_received System.compact_lineCodec hrun hhandler hsize _ none none⟩

end Server

end CortexOnnx
