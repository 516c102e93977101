import CortexOnnx.ReplyProtocol

/-!
# From the engine to the client

`SyncQueue` and the content provider of `process_stream_res`.  The engine pushes from its worker
thread, and the provider pops, writes and tests on a thread of the server, in any order.
-/

namespace CortexOnnx

/-- What a callback passes on: status and result. -/
abbrev Reply := Status × Json

/-- `Server::SyncQueue`, oldest item first.  Both operations hold the mutex. -/
structure SyncQueue where
  q : List Reply

namespace SyncQueue

def push (queue : SyncQueue) (p : Reply) : SyncQueue := { q := queue.q ++ [p] }

/-- `none` while the condition variable waits. -/
def waitAndPop (queue : SyncQueue) : Option (Reply × SyncQueue) :=
  match queue.q with
  | [] => none
  | res :: rest => some (res, { q := rest })

end SyncQueue

/-- `httplib::DataSink`: the strings it was offered and whether each was written, and how often it
was told that this is all. -/
structure DataSink where
  offers : List (String × Bool)
  dones : Nat

def DataSink.offered (sink : DataSink) : List String := sink.offers.map Prod.fst

/-- Where the loop of the content provider is. -/
inductive ProviderPoint where
  | pop
  | write (item : Reply)
  | test (status : Status)
  | returned
  | threw

structure ContentProvider where
  point : ProviderPoint
  q : SyncQueue
  sink : DataSink

namespace ContentProvider

def push (provider : ContentProvider) (p : Reply) : ContentProvider :=
  { provider with q := provider.q.push p }

/-- The next step of `chunked_content_provider`.  A write that fails is only logged. -/
def step (provider : ContentProvider) (writable : Bool) : Option ContentProvider :=
  match provider.point with
  | .pop => provider.q.waitAndPop.map fun (item, q) => { provider with point := .write item, q }
  | .write (status, res) =>
      match dataField res with
      | .ok str =>
          some { provider with
            point := .test status
            sink := { provider.sink with offers := provider.sink.offers ++ [(str, writable)] } }
      -- `asString` throws on an array or an object
      | .error _ => some { provider with point := .threw }
  | .test status =>
      if status.hasError || status.isDone then
        some { provider with
          point := .returned
          sink := { provider.sink with dones := provider.sink.dones + 1 } }
      else some { provider with point := .pop }
  | .returned | .threw => none

/-- The provider as the handler registers it. -/
def registered (q : SyncQueue) : ContentProvider where
  point := .pop
  q := q
  sink := { offers := [], dones := 0 }

end ContentProvider

/-! ## Delivery -/

/-- The engine with what it has still to push, and the provider. -/
structure Delivery where
  script : List Reply
  provider : ContentProvider

inductive Delivery.Act where
  | push
  | provide (writable : Bool)

namespace Delivery

def step (s : Delivery) : Act → Option Delivery
  | .push =>
      match s.script with
      | [] => none
      | p :: script => some { script, provider := s.provider.push p }
  | .provide writable => (s.provider.step writable).map fun provider => { s with provider }

def start (items : List Reply) : Delivery where
  script := items
  provider := .registered { q := [] }

end Delivery

/-- Exactly the last item is one after which the provider stops. -/
def EndsOnce (items : List Reply) : Prop :=
  ∃ before last, items = before ++ [last] ∧ last.1.terminal = true ∧
    ∀ item ∈ before, item.1.terminal = false

/-- Nothing follows a terminal item. -/
theorem EndsOnce.split {items taken rest : List Reply} {item : Reply} (h : EndsOnce items)
    (hsplit : items = taken ++ item :: rest) (hterminal : item.1.terminal = true) : rest = [] := by
  obtain ⟨before, last, hitems, _, hbefore⟩ := h
  rcases List.eq_nil_or_concat rest with hnil | ⟨rest', last', hrest⟩
  · exact hnil
  · have hsame : before ++ [last] = (taken ++ item :: rest') ++ [last'] := by
      rw [← hitems, hsplit, hrest]
      simp
    have hmem : item ∈ before := by
      rw [(List.append_inj' hsame rfl).1]
      exact List.mem_append_right _ List.mem_cons_self
    rw [hbefore item hmem] at hterminal
    cases hterminal

/-- The string that the provider offers for an item; an absent data field counts as empty. -/
def replyData (item : Reply) : String := (dataField item.2).toOption.getD ""

/-- The items that a provider has popped, by where it is. -/
inductive ContentProvider.Took (provider : ContentProvider) : List Reply → Prop
  | popping {taken : List Reply} (at_ : provider.point = .pop)
      (goesOn : ∀ item ∈ taken, item.1.terminal = false)
      (offered : provider.sink.offered = taken.map replyData) (dones : provider.sink.dones = 0) :
      Took provider taken
  | writing {taken : List Reply} {item : Reply} (at_ : provider.point = .write item)
      (goesOn : ∀ item ∈ taken, item.1.terminal = false)
      (offered : provider.sink.offered = taken.map replyData) (dones : provider.sink.dones = 0) :
      Took provider (taken ++ [item])
  | testing {taken : List Reply} {item : Reply} (at_ : provider.point = .test item.1)
      (goesOn : ∀ item ∈ taken, item.1.terminal = false)
      (offered : provider.sink.offered = (taken ++ [item]).map replyData)
      (dones : provider.sink.dones = 0) : Took provider (taken ++ [item])
  | returned {taken : List Reply} {item : Reply} (at_ : provider.point = .returned)
      (ends : item.1.terminal = true)
      (offered : provider.sink.offered = (taken ++ [item]).map replyData)
      (dones : provider.sink.dones = 1) : Took provider (taken ++ [item])
  | threw {taken : List Reply} {what : String} {item : Reply} (at_ : provider.point = .threw)
      (bad : dataField item.2 = .error what) : Took provider (taken ++ [item])

namespace ContentProvider

theorem registered_took (q : SyncQueue) : (registered q).Took [] :=
  .popping rfl (fun _ h => absurd h List.not_mem_nil) rfl rfl

/-- What is queued changes nothing for what was popped. -/
theorem Took.queue {provider : ContentProvider} {taken : List Reply} (h : provider.Took taken)
    (q : SyncQueue) : ({ provider with q } : ContentProvider).Took taken := by
  cases h with
  | popping at_ goesOn offered dones => exact .popping at_ goesOn offered dones
  | writing at_ goesOn offered dones => exact .writing at_ goesOn offered dones
  | testing at_ goesOn offered dones => exact .testing at_ goesOn offered dones
  | returned at_ ends offered dones => exact .returned at_ ends offered dones
  | threw at_ bad => exact .threw at_ bad

/-- What one step of the provider takes from its queue. -/
theorem Took.step {provider provider' : ContentProvider} {taken : List Reply} {writable : Bool}
    (h : provider.Took taken) (steps : provider.step writable = some provider') :
    ∃ popped, provider'.Took (taken ++ popped) ∧ provider.q.q = popped ++ provider'.q.q := by
  cases h with
  | popping at_ goesOn offered dones =>
    cases hq : provider.q.q with
    | nil => simp [ContentProvider.step, at_, SyncQueue.waitAndPop, hq] at steps
    | cons item rest =>
      simp [ContentProvider.step, at_, SyncQueue.waitAndPop, hq] at steps
      subst steps
      exact ⟨[item], .writing rfl goesOn offered dones, rfl⟩
  | @writing taken item at_ goesOn offered dones =>
    refine ⟨[], ?_⟩
    rw [List.append_nil, List.nil_append]
    cases hdata : dataField item.2 with
    | error what =>
      simp [ContentProvider.step, at_, hdata] at steps
      subst steps
      exact ⟨.threw rfl hdata, rfl⟩
    | ok str =>
      simp [ContentProvider.step, at_, hdata] at steps
      subst steps
      refine ⟨?_, rfl⟩
      have hstr : replyData item = str := by
        rw [replyData, hdata]
        rfl
      apply Took.testing
      · rfl
      · exact goesOn
      · rw [List.map_append, List.map_singleton, hstr, ← offered]
        exact List.map_append
      · exact dones
  | @testing taken item at_ goesOn offered dones =>
    refine ⟨[], ?_⟩
    rw [List.append_nil, List.nil_append]
    -- the loop ends at the first terminal item
    cases hterminal : item.1.terminal with
    | true =>
      have htest : (item.1.hasError || item.1.isDone) = true := hterminal
      simp only [ContentProvider.step, at_, htest] at steps
      cases steps
      refine ⟨?_, rfl⟩
      apply Took.returned
      · rfl
      · exact hterminal
      · exact offered
      · show provider.sink.dones + 1 = 1
        omega
    | false =>
      have htest : (item.1.hasError || item.1.isDone) = false := hterminal
      simp only [ContentProvider.step, at_, htest] at steps
      cases steps
      refine ⟨.popping rfl ?_ offered dones, rfl⟩
      intro other hother
      rcases List.mem_append.mp hother with hother | hother
      · exact goesOn other hother
      · rw [List.mem_singleton.mp hother]
        exact hterminal
  | returned at_ => simp [ContentProvider.step, at_] at steps
  | threw at_ => simp [ContentProvider.step, at_] at steps

end ContentProvider

/-- Nothing after the last item is left to deliver. -/
theorem EndsOnce.not_goesOn {items : List Reply} (h : EndsOnce items) :
    ¬∀ item ∈ items, item.1.terminal = false := by
  intro hgoes
  obtain ⟨before, last, hitems, hterminal, _⟩ := h
  have hlast := hgoes last (by rw [hitems]; exact List.mem_append_right _ List.mem_cons_self)
  rw [hlast] at hterminal
  cases hterminal

theorem EndsOnce.last_terminal {items taken : List Reply} {item : Reply} (h : EndsOnce items)
    (hsplit : items = taken ++ [item]) : item.1.terminal = true := by
  obtain ⟨before, last, hitems, hterminal, _⟩ := h
  rw [hitems] at hsplit
  have hlast : last = item := by simpa using (List.append_inj' hsplit rfl).2
  rw [← hlast]
  exact hterminal

/-- The steps that an item takes from here. -/
def ProviderPoint.stepsLeft : ProviderPoint → Nat
  | .pop | .returned => 0
  | .write _ => 2
  | .test _ | .threw => 1

namespace ContentProvider

/-- Three steps an item, which it takes itself. -/
theorem step_stepsLeft {provider provider' : ContentProvider} {writable : Bool}
    (steps : provider.step writable = some provider') :
    3 * provider'.q.q.length + provider'.point.stepsLeft + 1 =
      3 * provider.q.q.length + provider.point.stepsLeft := by
  unfold step at steps
  cases hpoint : provider.point with
  | pop =>
    rw [hpoint] at steps
    cases hq : provider.q.q with
    | nil => simp [SyncQueue.waitAndPop, hq] at steps
    | cons item rest =>
      simp [SyncQueue.waitAndPop, hq] at steps
      subst steps
      simp [ProviderPoint.stepsLeft]
      omega
  | write item =>
    rw [hpoint] at steps
    cases hdata : dataField item.2 <;> simp [hdata] at steps <;> subst steps <;>
      simp [ProviderPoint.stepsLeft]
  | test status =>
    rw [hpoint] at steps
    dsimp only at steps
    split at steps
    · cases steps
      simp [ProviderPoint.stepsLeft]
    · cases steps
      simp [ProviderPoint.stepsLeft]
  | returned | threw => simp [hpoint] at steps

section Readable

variable {provider : ContentProvider} {taken : List Reply}

theorem Took.calm (h : provider.Took taken)
    (readable : ∀ item ∈ taken, ∃ str, dataField item.2 = .ok str) : provider.point ≠ .threw := by
  cases h with
  | popping at_ | writing at_ | testing at_ | returned at_ => simp [at_]
  | @threw taken what item at_ bad =>
    obtain ⟨str, hstr⟩ := readable item (List.mem_append_right _ (List.mem_singleton_self _))
    rw [bad] at hstr
    cases hstr

/-- What was offered is what was taken, or all of it but the last item. -/
theorem Took.offered_prefix (h : provider.Took taken) (calm : provider.point ≠ .threw) :
    provider.sink.offered <+: taken.map replyData := by
  cases h with
  | popping at_ goesOn offered => exact ⟨[], by rw [List.append_nil, offered]⟩
  | writing at_ goesOn offered =>
    rw [offered]
    exact (List.prefix_append _ _).map replyData
  | testing at_ goesOn offered => exact ⟨[], by rw [List.append_nil, offered]⟩
  | returned at_ ends offered => exact ⟨[], by rw [List.append_nil, offered]⟩
  | threw at_ => exact absurd at_ calm

theorem Took.dones (h : provider.Took taken) (calm : provider.point ≠ .threw) :
    provider.sink.dones ≤ 1 ∧ (provider.sink.dones = 1 ↔ provider.point = .returned) := by
  cases h with
  | popping at_ _ _ dones | writing at_ _ _ dones | testing at_ _ _ dones
  | returned at_ _ _ dones => simp [dones, at_]
  | threw at_ => exact absurd at_ calm

/-- It returns after a terminal item. -/
theorem Took.of_returned (h : provider.Took taken) (hreturned : provider.point = .returned) :
    provider.sink.offered = taken.map replyData ∧
      ∃ before item, taken = before ++ [item] ∧ item.1.terminal = true := by
  cases h with
  | returned at_ ends offered => exact ⟨offered, _, _, rfl, ends⟩
  | popping at_ | writing at_ | testing at_ | threw at_ =>
    rw [at_] at hreturned
    cases hreturned

/-- It goes on until it returns, unless it has to wait for its queue. -/
theorem Took.goesOn (h : provider.Took taken)
    (readable : ∀ item ∈ taken, ∃ str, dataField item.2 = .ok str) :
    provider.point = .returned ∨
      (provider.q.q = [] ∧ ∀ item ∈ taken, item.1.terminal = false) ∨
      ∃ provider', provider.step true = some provider' := by
  have hcalm := h.calm readable
  cases h with
  | popping at_ goesOn =>
    cases hq : provider.q.q with
    | nil => exact .inr (.inl ⟨rfl, goesOn⟩)
    | cons item rest =>
      exact .inr (.inr (by simp [ContentProvider.step, at_, SyncQueue.waitAndPop, hq]))
  | @writing taken item at_ =>
    obtain ⟨str, hstr⟩ := readable item (List.mem_append_right _ (List.mem_singleton_self _))
    exact .inr (.inr (by simp [ContentProvider.step, at_, hstr]))
  | testing at_ =>
    refine .inr (.inr ?_)
    simp only [ContentProvider.step, at_]
    split <;> exact ⟨_, rfl⟩
  | returned at_ => exact .inl at_
  | threw at_ => exact absurd at_ hcalm

/-- Right after the last item is offered it returns. -/
theorem Took.returns (h : provider.Took taken) (ends : EndsOnce taken)
    (calm : provider.point ≠ .threw) (offers : provider.sink.offered = taken.map replyData) :
    provider.point = .returned ∨
      ∀ writable, ∃ provider', provider.step writable = some provider' ∧
        provider'.point = .returned := by
  cases h with
  | popping at_ goesOn => exact absurd goesOn ends.not_goesOn
  | writing at_ goesOn offered =>
    -- the item to be written is missing
    rw [offered] at offers
    simp at offers
  | @testing taken item at_ =>
    have hterminal : (item.1.hasError || item.1.isDone) = true := ends.last_terminal rfl
    refine .inr fun writable => ?_
    simp only [ContentProvider.step, at_, hterminal]
    exact ⟨_, rfl, rfl⟩
  | returned at_ => exact .inl at_
  | threw at_ => exact absurd at_ calm

end Readable

end ContentProvider

namespace Delivery

/-- What the provider has taken, what is queued and what is still to be pushed are the items. -/
def Conserves (items : List Reply) (s : Delivery) : Prop :=
  ∃ taken, s.provider.Took taken ∧ items = taken ++ (s.provider.q.q ++ s.script)

theorem step_conserves {items : List Reply} {s t : Delivery} {act : Act} (h : s.Conserves items)
    (steps : s.step act = some t) : t.Conserves items := by
  obtain ⟨taken, htook, hitems⟩ := h
  cases act with
  | push =>
    cases hscript : s.script with
    | nil => simp [step, hscript] at steps
    | cons p script =>
      simp only [step, hscript, Option.some.injEq] at steps
      subst steps
      refine ⟨taken, htook.queue _, ?_⟩
      rw [hitems, hscript]
      show taken ++ (s.provider.q.q ++ p :: script) = taken ++ (s.provider.q.q ++ [p] ++ script)
      simp
  | provide writable =>
    obtain ⟨provider, hprovider, rfl⟩ := Option.map_eq_some_iff.mp steps
    obtain ⟨popped, htook', hq⟩ := htook.step hprovider
    refine ⟨taken ++ popped, htook', ?_⟩
    rw [hitems, hq, List.append_assoc, List.append_assoc]

theorem run_conserves {items : List Reply} {es : List (Delivery × Act)} {t : Delivery}
    (hrun : Run step (start items) es t) : t.Conserves items := by
  apply hrun.invariant (I := fun s => s.Conserves items)
  · exact ⟨[], ContentProvider.registered_took _, rfl⟩
  · intro s act t hs htaken
    exact step_conserves hs htaken

def stepsLeft (s : Delivery) : Nat :=
  4 * s.script.length + 3 * s.provider.q.q.length + s.provider.point.stepsLeft

theorem step_stepsLeft {s t : Delivery} {act : Act} (steps : s.step act = some t) :
    t.stepsLeft + 1 = s.stepsLeft := by
  cases act with
  | push =>
    cases hscript : s.script with
    | nil => simp [step, hscript] at steps
    | cons p script =>
      simp only [step, hscript, Option.some.injEq] at steps
      subst steps
      simp [stepsLeft, hscript, ContentProvider.push, SyncQueue.push]
      omega
  | provide writable =>
    obtain ⟨provider, hprovider, rfl⟩ := Option.map_eq_some_iff.mp steps
    have hless := ContentProvider.step_stepsLeft hprovider
    simp only [stepsLeft]
    omega

/-- Every step is one of the four that an item takes. -/
theorem run_stepsLeft {s t : Delivery} {es : List (Delivery × Act)} (hrun : Run step s es t) :
    es.length + t.stepsLeft = s.stepsLeft := by
  induction hrun with
  | nil => simp
  | snoc _ steps ih =>
    have hless := step_stepsLeft steps
    rw [List.length_append, List.length_singleton]
    omega

/-- What a client has been offered after some number of steps: the data strings in the order of the
pushes, all of them when the provider returns, which it does right after the last one.  Until then
something goes on, for no more than four steps an item. -/
structure Delivered (items : List Reply) (steps : Nat) (t : Delivery) : Prop where
  ordered : t.provider.sink.offered <+: items.map replyData
  dones : t.provider.sink.dones ≤ 1 ∧ (t.provider.sink.dones = 1 ↔ t.provider.point = .returned)
  complete : t.provider.point = .returned →
    t.provider.sink.offered = items.map replyData ∧ t.provider.q.q = [] ∧ t.script = []
  returns : t.provider.sink.offered = items.map replyData → t.provider.point = .returned ∨
    ∀ writable, ∃ provider, t.provider.step writable = some provider ∧ provider.point = .returned
  goesOn : t.provider.point = .returned ∨ ∃ act u, t.step act = some u
  bounded : steps ≤ 4 * items.length

/-- As many offers as items mean that no item is left. -/
theorem rest_of_offered {offered : List String} {taken rest : List Reply}
    (ordered : offered <+: taken.map replyData)
    (all : offered = (taken ++ rest).map replyData) : rest = [] := by
  have hlength := ordered.length_le
  rw [all, List.length_map, List.length_map, List.length_append] at hlength
  exact List.length_eq_zero_iff.mp (by omega)

/-- **Ordered, loss-free delivery**, for every sequence that ends once and every interleaving of
pushes with the steps of the provider, its writes failing or not. -/
theorem delivered {items : List Reply} (ends : EndsOnce items)
    (data : ∀ item ∈ items, ∃ str, dataField item.2 = .ok str) {es : List (Delivery × Act)}
    {t : Delivery} (hrun : Run step (start items) es t) : t.Delivered items es.length := by
  -- `ordered` to `goesOn` are read off what the provider has taken
  obtain ⟨taken, htook, hitems⟩ := run_conserves hrun
  have hreadable : ∀ item ∈ taken, ∃ str, dataField item.2 = .ok str := by
    intro item hitem
    exact data item (by rw [hitems]; exact List.mem_append_left _ hitem)
  have hcalm := htook.calm hreadable
  have hprefix := htook.offered_prefix hcalm
  constructor
  case ordered =>
    rw [hitems, List.map_append]
    exact hprefix.trans (List.prefix_append _ _)
  case dones => exact htook.dones hcalm
  case complete =>
    intro hreturned
    obtain ⟨hoffered, before, item, hlast, hterminal⟩ := htook.of_returned hreturned
    -- a terminal item was taken, and it is the last
    have hsplit : items = before ++ item :: (t.provider.q.q ++ t.script) := by
      rw [hitems, hlast, List.append_assoc]
      rfl
    obtain ⟨hq, hscript⟩ := List.append_eq_nil_iff.mp (ends.split hsplit hterminal)
    rw [hq, hscript, List.append_nil, List.append_nil] at hitems
    rw [hitems]
    exact ⟨hoffered, hq, hscript⟩
  case returns =>
    intro hall
    have hrest : t.provider.q.q ++ t.script = [] := by
      rw [hitems] at hall
      exact rest_of_offered hprefix hall
    rw [hrest, List.append_nil] at hitems
    rw [hitems] at ends hall
    exact htook.returns ends hcalm hall
  case goesOn =>
    rcases htook.goesOn hreadable with hreturned | ⟨hq, hgoes⟩ | ⟨provider, hstep⟩
    · exact .inl hreturned
    -- the terminal item is not taken and not queued, so it is still to be pushed
    · cases hscript : t.script with
      | nil =>
        rw [hq, hscript, List.append_nil, List.append_nil] at hitems
        exact absurd (hitems ▸ hgoes) ends.not_goesOn
      | cons p script => exact .inr ⟨.push, _, by rw [step, hscript]⟩
    · exact .inr ⟨.provide true, { t with provider }, by rw [step, hstep, Option.map_some]⟩
  case bounded =>
    have hsteps := run_stepsLeft hrun
    have hstart : (start items).stepsLeft = 4 * items.length := rfl
    omega

/-- A chunk and the end of a stream. -/
def chunkAndStop : List Reply := [(.chunk, dataBody "a"), (.streamStop, dataBody "b")]

/-- The provider pops between the two pushes, and its first write fails. -/
def failedWrite : List Act :=
  [.push, .provide true, .push, .provide false, .provide true, .provide true, .provide true,
    .provide true]

theorem delivered_of_failedWrite : ∃ t,
    execute step (start chunkAndStop) failedWrite = some t ∧
      t.Delivered chunkAndStop (trace step (start chunkAndStop) failedWrite).length := by
  have hruns : (execute step (start chunkAndStop) failedWrite).any
      (fun t => t.provider.sink.offered = ["a", "b"]) = true := by decide
  obtain ⟨t, hexecute, hrun, _⟩ := exists_run_of_execute hruns
  have hends : EndsOnce chunkAndStop := ⟨[_], _, rfl, by decide, by decide⟩
  have hdata : ∀ item ∈ chunkAndStop, ∃ str, dataField item.2 = .ok str := by
    intro item hitem
    rcases List.mem_cons.mp hitem with rfl | hitem
    · exact ⟨_, rfl⟩
    · rw [List.mem_singleton.mp hitem]
      exact ⟨_, rfl⟩
  exact ⟨t, hexecute, delivered hends hdata hrun⟩

end Delivery

/-! ## What the engine pushes -/

theorem chunks_data {σ : Type} {vendor : Vendor σ} {chunks : List Reply} {texts : List String}
    (h : List.Forall₂ (IsChunk vendor) chunks texts) :
    ∀ item ∈ chunks, ∃ str, dataField item.2 = .ok str := by
  intro item hitem
  obtain ⟨text, env, rfl⟩ := exists_isChunk h item hitem
  exact ⟨_, rfl⟩

theorem ending_data {σ : Type} {vendor : Vendor σ} {reply : Reply}
    (h : Ending vendor true reply) : ∃ str, dataField reply.2 = .ok str := by
  cases h with
  | generated whole => cases whole
  | stopped | unloaded | failed => exact ⟨_, rfl⟩

/-- A transcript with an end is a sequence as the provider expects it. -/
theorem endsOnce_of_transcript {σ : Type} {vendor : Vendor σ} {told : List Event} {reply : Reply}
    (h : Transcript vendor told [reply]) (hending : Ending vendor true reply) :
    EndsOnce (replies told) ∧ ∀ item ∈ replies told, ∃ str, dataField item.2 = .ok str := by
  obtain ⟨chunks, hreplies, hchunks⟩ := h
  constructor
  · refine ⟨chunks, reply, hreplies, hending.terminal, ?_⟩
    intro item hitem
    rw [chunks_status hchunks item hitem]
    rfl
  · intro item hitem
    rw [hreplies, List.mem_append, List.mem_singleton] at hitem
    rcases hitem with hitem | rfl
    · exact chunks_data hchunks item hitem
    · exact ending_data hending

namespace System

/-- What a streaming request has been told when its task is gone can be delivered. -/
theorem run_endsOnce {σ : Type} {vendor : Vendor σ} {grain : Grain} {startTime : Nat}
    {maxHistoryChat : Int} {es : List (System σ × Act)} {s t : System σ} {jsonBody : Json}
    {task : Task} (hrun : Run (step vendor grain) (fresh startTime maxHistoryChat) es t)
    (call : (s, .handleChatCompletion jsonBody) ∈ es) (set : s.engine.modelLoaded = true)
    (forms : formTask s.engine.config s.next jsonBody = .ok task)
    (stream : task.req.stream = true) (running : t.fault = none) (gone : ¬t.IsAlive s.next) :
    EndsOnce (replies (about Event.subject? s.next t.log)) ∧
      ∀ item ∈ replies (about Event.subject? s.next t.log), ∃ str, dataField item.2 = .ok str := by
  obtain ⟨rest, last, habout, htranscript, hends, hopen⟩ :=
    run_streamed hrun call set forms stream
  rw [habout]
  rcases hends with hnone | ⟨reply, hlast, hending⟩
  · exact absurd (hopen running hnone) gone
  · rw [hlast] at htranscript
    exact endsOnce_of_transcript htranscript hending

end System

end CortexOnnx
