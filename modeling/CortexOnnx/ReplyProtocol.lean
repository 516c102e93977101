import CortexOnnx.Replies
import CortexOnnx.Utf8Vendor

/-!
# The reply protocol of `HandleChatCompletion`

The invariant is a ledger of all requests: the ones alive are numbered in the order in which they
will be served, and what each queued request was told is a row of chunks with at most one terminal
callback after it, which is there exactly when its task has ended.
-/

namespace CortexOnnx

variable {σ : Type} {vendor : Vendor σ}

/-- Nothing queues a request twice. -/
theorem Concerns.unqueued_append {id : Nat} {rest events : List Event} (h : Concerns id events)
    (hrest : ∀ id', .queued id' ∉ rest) :
    ∀ id', .queued id' ∉ rest ++ CortexOnnx.about Event.subject? id events := by
  intro id' hmem
  rcases List.mem_append.mp hmem with hmem | hmem
  · exact hrest id' hmem
  · exact (h _ (mem_about.mp hmem).1).2 id' rfl

namespace System

/-- The task of request `id` is running or waits. -/
def IsAlive (s : System σ) (id : Nat) : Prop := ∃ task ∈ s.alive, task.id = id

theorem isAlive_of_running {s : System σ} {task : Task} (running : s.worker.task? = some task) :
    s.IsAlive task.id := by
  refine ⟨task, ?_, rfl⟩
  rw [alive_of_running running]
  exact List.mem_cons_self

theorem isAlive_of_waiting {s : System σ} {task : Task} {others : List Task}
    (front : s.engine.waiting = task :: others) : s.IsAlive task.id := by
  refine ⟨task, List.mem_append_right _ ?_, rfl⟩
  rw [front]
  exact List.mem_cons_self

/-- What happened to a request after it was queued. -/
def Answered (vendor : Vendor σ) (s : System σ) (id : Nat) (rest : List Event) : Prop :=
  (∀ id', .queued id' ∉ rest) ∧ ∃ last, Transcript vendor rest last ∧
    (last = [] ∨ ∃ status body, status.terminal = true ∧ last = [(status, body)]) ∧
    (s.IsAlive id → last = []) ∧ (s.fault = none → last = [] → s.IsAlive id)

structure Ledger (vendor : Vendor σ) (s : System σ) : Prop where
  sorted : (s.alive.map Task.id).Pairwise (· < ·)
  numbered : ∀ task ∈ s.alive, task.id < s.next
  unborn : ∀ id, s.next ≤ id → about Event.subject? id s.log = []
  admitted : ∀ task ∈ s.alive, .queued task.id ∈ s.log
  replied : ∀ id, .queued id ∈ s.log →
    ∃ rest, about Event.subject? id s.log = .queued id :: rest ∧ s.Answered vendor id rest

theorem fresh_ledger (startTime : Nat) (maxHistoryChat : Int) :
    (fresh startTime maxHistoryChat : System σ).Ledger vendor where
  sorted := List.Pairwise.nil
  numbered := fun _ h => absurd h List.not_mem_nil
  unborn := fun _ _ => rfl
  admitted := fun _ h => absurd h List.not_mem_nil
  replied := fun _ h => absurd h List.not_mem_nil

theorem Ledger.lt_next {s : System σ} (h : s.Ledger vendor) {e : Event} {id : Nat} (he : e ∈ s.log)
    (hsubject : e.subject? = some id) : id < s.next := by
  by_cases hlt : id < s.next
  · exact hlt
  · have hmem := mem_about.mpr ⟨he, hsubject⟩
    rw [h.unborn id (by omega)] at hmem
    exact absurd hmem List.not_mem_nil

/-- The tasks behind the front have other numbers. -/
theorem Ledger.front_fresh {s : System σ} (h : s.Ledger vendor) {task : Task} {others : List Task}
    (front : s.alive = task :: others) : ∀ other ∈ others, other.id ≠ task.id := by
  intro other hother
  have hsorted := h.sorted
  rw [front, List.map_cons, List.pairwise_cons] at hsorted
  have hlt := hsorted.1 other.id (List.mem_map_of_mem hother)
  omega

/-- A step that says nothing about a request leaves its record as it was. -/
theorem Answered.frame {s t : System σ} {id : Nat} {rest : List Event}
    (h : s.Answered vendor id rest) (hrunning : s.fault = none)
    (hstill : t.IsAlive id → s.IsAlive id)
    (hkept : t.fault = none → s.IsAlive id → t.IsAlive id) : t.Answered vendor id rest := by
  obtain ⟨hunqueued, last, htranscript, hshape, halive, hended⟩ := h
  refine ⟨hunqueued, last, htranscript, hshape, fun ht => halive (hstill ht), ?_⟩
  intro hfault hlast
  exact hkept hfault (hended hrunning hlast)

/-- What is logged about a request that no event of the step concerns. -/
theorem about_of_concerns {s t : System σ} {events : List Event} {id id' : Nat}
    (log : t.log = s.log ++ events) (concerns : Concerns id' events) (hne : id ≠ id') :
    about Event.subject? id t.log = about Event.subject? id s.log := by
  rw [log, about_append, about_of_ne concerns.subject hne, List.append_nil]

theorem queued_of_concerns {s t : System σ} {events : List Event} {id id' : Nat}
    (log : t.log = s.log ++ events) (concerns : Concerns id' events)
    (hqueued : .queued id ∈ t.log) : .queued id ∈ s.log := by
  rw [log, List.mem_append] at hqueued
  rcases hqueued with hold | hnew
  · exact hold
  · exact absurd rfl ((concerns _ hnew).2 id)

/-- A step that admits nothing: only the record of `id'` is new. -/
theorem Ledger.step {s t : System σ} {events : List Event} {id' : Nat} (h : s.Ledger vendor)
    (hrunning : s.fault = none) (log : t.log = s.log ++ events) (concerns : Concerns id' events)
    (owner : events = [] ∨ id' < t.next) (next : s.next ≤ t.next)
    (alive : t.alive.Sublist s.alive)
    (kept : t.fault = none → ∀ id, id ≠ id' → s.IsAlive id → t.IsAlive id)
    (own : .queued id' ∈ s.log →
      ∃ rest, about Event.subject? id' t.log = .queued id' :: rest ∧ t.Answered vendor id' rest) :
    t.Ledger vendor where
  sorted := h.sorted.sublist (alive.map Task.id)
  numbered := by
    intro task htask
    have hlt := h.numbered task (alive.subset htask)
    omega
  unborn := by
    intro id hid
    rcases owner with rfl | howner
    · rw [log, List.append_nil]
      exact h.unborn id (by omega)
    · rw [about_of_concerns log concerns (by omega)]
      exact h.unborn id (by omega)
  admitted := by
    intro task htask
    rw [log]
    exact List.mem_append_left _ (h.admitted task (alive.subset htask))
  replied := by
    intro id hid
    have hold := queued_of_concerns log concerns hid
    by_cases hown : id = id'
    · subst hown
      exact own hold
    · obtain ⟨rest, habout, hanswered⟩ := h.replied id hold
      rw [about_of_concerns log concerns hown]
      refine ⟨rest, habout, hanswered.frame hrunning ?_ ?_⟩
      · intro ⟨task, htask, htaskId⟩
        exact ⟨task, alive.subset htask, htaskId⟩
      · intro hfault
        exact kept hfault id hown

theorem View.ledger {s t : System σ} (view : View vendor s t) (h : s.Ledger vendor)
    (hrunning : s.fault = none) : t.Ledger vendor := by
  cases view with
  | answers log concerns next alive =>
    apply h.step hrunning log concerns (Or.inr (by omega)) (by omega) (alive ▸ List.Sublist.refl _)
    · intro _ id _ halive
      rwa [IsAlive, alive]
    · intro hqueued
      have hlt := h.lt_next hqueued rfl
      omega
  | @admits task log id next alive =>
    have hnew : ∀ id', id' ≠ s.next → about Event.subject? id' t.log =
        about Event.subject? id' s.log := by
      intro id' hne
      have hother : about Event.subject? id' [.queued s.next] = [] :=
        about_of_ne (by simp [Event.subject?]) hne
      rw [log, id, about_append, hother, List.append_nil]
    have hmem : ∀ other ∈ t.alive, other ∈ s.alive ∨ other = task := by
      intro other hother
      rw [alive, List.mem_append, List.mem_singleton] at hother
      exact hother
    -- the new task is the last of the row and has the largest number
    constructor
    · rw [alive, List.map_append, List.pairwise_append]
      refine ⟨h.sorted, List.pairwise_singleton _ _, ?_⟩
      intro m hm n hn
      obtain ⟨other, hother, rfl⟩ := List.mem_map.mp hm
      have hlt := h.numbered other hother
      simp only [List.map_cons, List.map_nil, List.mem_singleton] at hn
      omega
    · intro other hother
      rcases hmem other hother with hold | rfl
      · have hlt := h.numbered other hold
        omega
      · omega
    · intro id' hid'
      rw [hnew id' (by omega)]
      exact h.unborn id' (by omega)
    · intro other hother
      rw [log]
      rcases hmem other hother with hold | rfl
      · exact List.mem_append_left _ (h.admitted other hold)
      · exact List.mem_append_right _ List.mem_cons_self
    · intro id' hid'
      by_cases hown : id' = s.next
      · subst hown
        refine ⟨[], ?_, ?_⟩
        · rw [log, about_append, h.unborn s.next (Nat.le_refl _), id]
          simp [about, Event.subject?]
        -- nothing has been said yet, and the task is alive
        · refine ⟨fun _ => List.not_mem_nil, [], ⟨[], rfl, List.Forall₂.nil⟩, Or.inl rfl,
            fun _ => rfl, fun _ _ => ?_⟩
          exact ⟨task, by rw [alive]; simp, id⟩
      · have hold : .queued id' ∈ s.log := by
          rw [log, List.mem_append, List.mem_singleton] at hid'
          rcases hid' with hold | hnew
          · exact hold
          · cases hnew
            exact absurd id hown
        obtain ⟨rest, habout, hanswered⟩ := h.replied id' hold
        rw [hnew id' hown]
        refine ⟨rest, habout, hanswered.frame hrunning ?_ ?_⟩
        · rintro ⟨other, hother, hid⟩
          rcases hmem other hother with hold | rfl
          · exact ⟨other, hold, hid⟩
          · omega
        · rintro _ ⟨other, hother, hid⟩
          exact ⟨other, by rw [alive]; exact List.mem_append_left _ hother, hid⟩
  | @works task others events front log concerns next alive transcript streams =>
    have hfront : task ∈ s.alive := by rw [front]; exact List.mem_cons_self
    have hsame : t.alive = s.alive := by rw [alive, front]
    have hlt := h.numbered task hfront
    apply h.step hrunning log concerns (Or.inr (by omega)) (by omega) (hsame ▸ List.Sublist.refl _)
    · intro _ id _ halive
      rwa [IsAlive, hsame]
    · intro hqueued
      obtain ⟨rest, habout, hunqueued, last, htranscript, _, hlast, _⟩ := h.replied task.id hqueued
      -- the task is at the front, so nothing has ended its transcript yet
      have hopen : last = [] := hlast ⟨task, hfront, rfl⟩
      subst hopen
      refine ⟨rest ++ about Event.subject? task.id events, ?_, ?_, [], ?_, Or.inl rfl,
        fun _ => rfl, fun _ _ => ⟨task, by rw [hsame]; exact hfront, rfl⟩⟩
      · rw [log, about_append, habout, List.cons_append]
      · exact concerns.unqueued_append hunqueued
      · apply htranscript.append
        rw [Transcript, concerns.about.1, concerns.about.2]
        exact transcript
  | @ends task others events status body front log concerns next alive ending only silent =>
    have hfront : task ∈ s.alive := by rw [front]; exact List.mem_cons_self
    have hlt := h.numbered task hfront
    -- no other task has its number, so the request is no longer alive
    have hgone : ¬t.IsAlive task.id := by
      rintro ⟨other, hother, hid⟩
      rw [alive] at hother
      exact h.front_fresh front other hother hid
    apply h.step hrunning log concerns (Or.inr (by omega)) (by omega)
    · rw [alive, front]
      exact List.sublist_cons_self task others
    · rintro _ id hne ⟨other, hother, hid⟩
      rw [front] at hother
      rcases List.mem_cons.mp hother with rfl | hother
      · exact absurd hid.symm hne
      · exact ⟨other, by rw [alive]; exact hother, hid⟩
    · intro hqueued
      obtain ⟨rest, habout, hunqueued, last, htranscript, _, hlast, _⟩ := h.replied task.id hqueued
      have hopen : last = [] := hlast ⟨task, hfront, rfl⟩
      subst hopen
      refine ⟨rest ++ about Event.subject? task.id events, ?_, ?_, [(status, body)], ?_,
        Or.inr ⟨status, body, ending.terminal, rfl⟩, fun halive => absurd halive hgone,
        fun _ hnil => by cases hnil⟩
      · rw [log, about_append, habout, List.cons_append]
      · exact concerns.unqueued_append hunqueued
      · apply htranscript.append
        rw [Transcript, concerns.about.1, concerns.about.2, ← only]
        -- the step adds its one reply and no text
        exact transcript_of_silent silent
  | @faults id events log concerns owner quiet next alive fault =>
    have hsub : t.alive.Sublist s.alive := by
      rcases alive with halive | halive
      · rw [halive]
      · rw [halive]
        exact List.tail_sublist _
    -- after the fault nothing more is promised of the tasks
    have hcrashed : t.fault ≠ none := by
      intro hnone
      rw [hnone] at fault
      cases fault
    apply h.step hrunning log concerns _ (by omega) hsub
    · intro hnone
      exact absurd hnone hcrashed
    · intro hqueued
      obtain ⟨rest, habout, hunqueued, last, htranscript, hshape, hlast, _⟩ := h.replied id hqueued
      refine ⟨rest ++ about Event.subject? id events, ?_, ?_, last, ?_, hshape, ?_,
        fun hnone => absurd hnone hcrashed⟩
      · rw [log, about_append, habout, List.cons_append]
      · exact concerns.unqueued_append hunqueued
      · apply htranscript.append_quiet
        rw [Quiet, concerns.about.1, concerns.about.2]
        exact quiet
      · rintro ⟨task, htask, hid⟩
        exact hlast ⟨task, hsub.subset htask, hid⟩
    · rcases owner with hnil | ⟨task, htask, hid⟩
      · exact Or.inl hnil
      · have hlt := h.numbered task htask
        exact Or.inr (by omega)

/-! ## Along a run -/

variable {grain : Grain}

theorem run_ledger {startTime : Nat} {maxHistoryChat : Int} {es : List (System σ × Act)}
    {t : System σ} (hrun : Run (step vendor grain) (fresh startTime maxHistoryChat) es t) :
    t.Tracked ∧ t.Ledger vendor := by
  apply run_invariant hrun (fresh_tracked startTime maxHistoryChat)
  · exact fresh_ledger startTime maxHistoryChat
  · intro s act t _ hrunning ht hs
    exact ht.view.ledger hs hrunning

/-- The record of a request is closed once its task is gone. -/
theorem View.record_kept {s t : System σ} (view : View vendor s t) {id : Nat} (hlt : id < s.next)
    (hdead : ¬s.IsAlive id) :
    about Event.subject? id t.log = about Event.subject? id s.log := by
  cases view with
  | answers log concerns => exact about_of_concerns log concerns (by omega)
  | @admits task log hid =>
    have hother : about Event.subject? id [.queued task.id] = [] :=
      about_of_ne (by simp [Event.subject?]) (by omega : id ≠ task.id)
    rw [log, about_append, hother, List.append_nil]
  | works front log concerns | ends front log concerns =>
    apply about_of_concerns log concerns
    intro hid
    exact hdead ⟨_, by rw [front]; exact List.mem_cons_self, hid.symm⟩
  | faults log concerns owner =>
    rcases owner with rfl | ⟨task, htask, hid⟩
    · rw [log, List.append_nil]
    · apply about_of_concerns log concerns
      intro hsame
      exact hdead ⟨task, htask, hid.trans hsame.symm⟩

/-- What one call of `HandleChatCompletion` does. -/
inductive ChatCall (s t : System σ) (jsonBody : Json) : Prop
  | threw (log : t.log = s.log ++ [.threw s.next]) (waiting : t.engine.waiting = s.engine.waiting)
  | refused (log : t.log = s.log ++ [refusal s.next])
      (waiting : t.engine.waiting = s.engine.waiting)
  | queued {task : Task} (forms : formTask s.engine.config s.next jsonBody = .ok task)
      (log : t.log = s.log ++ [.queued s.next])
      (waiting : t.engine.waiting = s.engine.waiting ++ [task])

theorem Transition.chatCall {s t : System σ} {jsonBody : Json} (h : s.Tracked)
    (ht : Transition vendor s (.handleChatCompletion jsonBody) t) :
    ChatCall s t jsonBody ∧ t.next = s.next + 1 ∧ t.worker = s.worker := by
  cases ht with
  | chatRefused => exact ⟨.refused rfl rfl, rfl, rfl⟩
  | chatThrew => exact ⟨.threw rfl rfl, rfl, rfl⟩
  | chatQueued set forms queues =>
    exact ⟨.queued forms rfl (OnnxEngine.waiting_enqueue _ queues), rfl, rfl⟩
  | chatFaulted set null =>
    -- a set flag comes with a queue
    have hqueue := h.queue set
    rw [null] at hqueue
    cases hqueue

/-- Only the streaming branch has a worker between steps. -/
def Streaming (s : System σ) : Prop := ∀ task, s.worker.task? = some task → task.req.stream = true

theorem Transition.streaming {s t : System σ} {act : Act} (ht : Transition vendor s act t)
    (h : s.Streaming) : t.Streaming := by
  intro task htask
  cases ht with
  | streamStarted idle queues stream =>
    cases htask
    exact stream
  | generated | startFailed | turnFailed | leftUnloaded | reloadFailed | finished => cases htask
  | turned at_ | loopLeft at_ | leftLoaded at_ | tornDown at_ | fastEnough at_ | reloaded at_ =>
    exact h task (by rw [at_]; exact htask)
  | _ => exact h task htask

/-- A request that is not a stream gets no texts. -/
theorem View.texts_kept {s t : System σ} (view : View vendor s t) (hstreaming : s.Streaming)
    {id : Nat} (hlt : id < s.next)
    (hwhole : ∀ task ∈ s.alive, task.id = id → task.req.stream = false) :
    texts (about Event.subject? id t.log) = texts (about Event.subject? id s.log) := by
  have hsilent : ∀ {events : List Event} {id' : Nat}, t.log = s.log ++ events →
      Concerns id' events → (id = id' → texts events = []) →
      texts (about Event.subject? id t.log) = texts (about Event.subject? id s.log) := by
    intro events id' log concerns htexts
    by_cases hid : id = id'
    · subst hid
      rw [log, about_append, texts_append, concerns.about.2, htexts rfl, List.append_nil]
    · rw [about_of_concerns log concerns hid]
  cases view with
  | answers log concerns => exact hsilent log concerns (fun hid => by omega)
  | @admits task log =>
    have hnone : texts (about Event.subject? id [.queued task.id]) = [] := by
      apply List.filterMap_eq_nil_iff.mpr
      intro e he
      rw [List.mem_singleton.mp (mem_about.mp he).1]
      rfl
    rw [log, about_append, texts_append, hnone, List.append_nil]
  | @works task others events front log concerns next alive transcript streams =>
    apply hsilent log concerns
    intro hid
    by_cases htexts : texts events = []
    · exact htexts
    · obtain ⟨sequence, hguard⟩ := streams htexts
      -- texts come from the loop, and only a stream is in it
      have hstream := hstreaming task (by rw [hguard]; rfl)
      have hnot := hwhole task (by rw [front]; exact List.mem_cons_self) hid.symm
      rw [hnot] at hstream
      cases hstream
  | ends front log concerns next alive ending only silent =>
    exact hsilent log concerns fun _ => silent
  | faults log concerns owner quiet => exact hsilent log concerns fun _ => quiet.2

/-- The terminal callbacks of a request are those of its task. -/
theorem View.endings_kept {s t : System σ} (view : View vendor s t) {id : Nat} (hlt : id < s.next)
    {stream : Bool} (hstream : ∀ task ∈ s.alive, task.id = id → task.req.stream = stream)
    (h : ∀ reply ∈ replies (about Event.subject? id s.log), reply.1.terminal = true →
      Ending vendor stream reply) :
    ∀ reply ∈ replies (about Event.subject? id t.log), reply.1.terminal = true →
      Ending vendor stream reply := by
  have hnew : ∀ {events : List Event} {id' : Nat}, t.log = s.log ++ events → Concerns id' events →
      (id = id' → ∀ reply ∈ replies events, reply.1.terminal = true →
        Ending vendor stream reply) →
      ∀ reply ∈ replies (about Event.subject? id t.log), reply.1.terminal = true →
        Ending vendor stream reply := by
    intro events id' log concerns hreplies reply hreply
    by_cases hid : id = id'
    · subst hid
      rw [log, about_append, replies_append, concerns.about.1, List.mem_append] at hreply
      rcases hreply with hold | hreply
      · exact h reply hold
      · exact hreplies rfl reply hreply
    · rw [about_of_concerns log concerns hid] at hreply
      exact h reply hreply
  cases view with
  | answers log concerns => exact hnew log concerns (fun hid => by omega)
  | @admits task log =>
    have hsame : replies (about Event.subject? id t.log) =
        replies (about Event.subject? id s.log) := by
      have hnone : replies (about Event.subject? id [.queued task.id]) = [] := by
        apply List.filterMap_eq_nil_iff.mpr
        intro e he
        rw [List.mem_singleton.mp (mem_about.mp he).1]
        rfl
      rw [log, about_append, replies_append, hnone, List.append_nil]
    rw [hsame]
    exact h
  | works front log concerns next alive transcript streams =>
    apply hnew log concerns
    intro _ reply hreply hterminal
    obtain ⟨chunks, hreplies, hchunks⟩ := transcript
    rw [hreplies, List.append_nil] at hreply
    -- before the end of the task all replies are chunks
    rw [chunks_status hchunks reply hreply] at hterminal
    cases hterminal
  | @ends task others events status body front log concerns next alive ending only silent =>
    apply hnew log concerns
    intro hid reply hreply _
    rw [only, List.mem_singleton] at hreply
    rw [hreply, ← hstream task (by rw [front]; exact List.mem_cons_self) hid.symm]
    exact ending
  | faults log concerns owner quiet =>
    apply hnew log concerns
    intro _ reply hreply
    rw [quiet.1] at hreply
    exact absurd hreply List.not_mem_nil

/-- What is known in `t` of a call that was made in `s` and logged `event`. -/
structure Called (vendor : Vendor σ) (s t : System σ) (jsonBody : Json) (event : Event) : Prop where
  earlier : s.next < t.next
  logged : s.log ++ [event] <+: t.log
  record : event ≠ .queued s.next → about Event.subject? s.next t.log = [event]
  queued : event = .queued s.next → .queued s.next ∈ t.log
  task : ∀ task ∈ t.alive, task.id = s.next → formTask s.engine.config s.next jsonBody = .ok task
  mute : ∀ task, formTask s.engine.config s.next jsonBody = .ok task → task.req.stream = false →
    texts (about Event.subject? s.next t.log) = []
  endings : event = .queued s.next → ∀ task,
    formTask s.engine.config s.next jsonBody = .ok task →
      ∀ reply ∈ replies (about Event.subject? s.next t.log), reply.1.terminal = true →
        Ending vendor task.req.stream reply

theorem ChatCall.called {s t : System σ} {jsonBody : Json} (call : ChatCall s t jsonBody)
    (h : s.Ledger vendor) (next : t.next = s.next + 1) (worker : t.worker = s.worker) :
    ∃ event, t.log = s.log ++ [event] ∧ Called vendor s t jsonBody event := by
  have hnew {event : Event} (log : t.log = s.log ++ [event])
      (hsubject : event.subject? = some s.next) :
      about Event.subject? s.next t.log = [event] := by
    rw [log, about_append, h.unborn s.next (Nat.le_refl _)]
    simp [about, hsubject]
  -- with nothing queued every task is older than the call
  have hold : t.engine.waiting = s.engine.waiting → ∀ task ∈ t.alive, task.id ≠ s.next := by
    intro waiting task htask
    rw [alive, worker, waiting, ← alive] at htask
    have hlt := h.numbered task htask
    omega
  cases call with
  | threw log waiting =>
    have habout := hnew log rfl
    refine ⟨.threw s.next, log, by omega, ⟨[], by rw [log, List.append_nil]⟩, fun _ => habout,
      (fun hevent => by cases hevent), ?_, ?_,
      (fun hevent => by cases hevent)⟩
    · intro task htask hid
      exact absurd hid (hold waiting task htask)
    · intro _ _ _
      rw [habout]
      rfl
  | refused log waiting =>
    have habout := hnew log rfl
    refine ⟨refusal s.next, log, by omega, ⟨[], by rw [log, List.append_nil]⟩, fun _ => habout,
      (fun hevent => by cases hevent), ?_, ?_,
      (fun hevent => by cases hevent)⟩
    · intro task htask hid
      exact absurd hid (hold waiting task htask)
    · intro _ _ _
      rw [habout]
      rfl
  | @queued task forms log waiting =>
    have habout := hnew log rfl
    refine ⟨.queued s.next, log, by omega, ⟨[], by rw [log, List.append_nil]⟩,
      fun hevent => absurd rfl hevent, ?_, ?_, ?_, ?_⟩
    · intro _
      rw [log]
      exact List.mem_append_right _ List.mem_cons_self
    · intro other hother hid
      rw [alive, worker, waiting, ← List.append_assoc, ← alive, List.mem_append,
        List.mem_singleton] at hother
      rcases hother with hother | rfl
      · have hlt := h.numbered other hother
        omega
      · exact forms
    · intro _ _ _
      rw [habout]
      rfl
    · intro _ _ _ reply hreply
      rw [habout] at hreply
      exact absurd hreply List.not_mem_nil

/-- A task of the next state is a task of this one, or it is new. -/
theorem View.mem_alive {s t : System σ} (view : View vendor s t) {task : Task}
    (htask : task ∈ t.alive) : task ∈ s.alive ∨ task.id = s.next := by
  cases view with
  | answers log concerns next alive => exact Or.inl (by rwa [← alive])
  | admits log hnew next alive =>
    rw [alive, List.mem_append, List.mem_singleton] at htask
    apply htask.imp_right
    intro hsame
    rw [hsame, hnew]
  | works front log concerns next alive => exact Or.inl (by rwa [front, ← alive])
  | ends front log concerns next alive =>
    rw [front, ← alive]
    exact Or.inl (List.mem_cons_of_mem _ htask)
  | faults log concerns owner quiet next alive =>
    rcases alive with alive | alive
    · exact Or.inl (by rwa [← alive])
    · rw [alive] at htask
      exact Or.inl (List.mem_of_mem_tail htask)

/-- A request that is gone does not come back. -/
theorem View.alive_before {s t : System σ} (view : View vendor s t) {id : Nat} (hlt : id < s.next)
    (halive : t.IsAlive id) : s.IsAlive id := by
  obtain ⟨task, htask, hid⟩ := halive
  rcases view.mem_alive htask with hold | hnew
  · exact ⟨task, hold, hid⟩
  · omega

theorem View.next_le {s t : System σ} (view : View vendor s t) : s.next ≤ t.next := by
  cases view <;> omega

theorem View.log_grows {s t : System σ} (view : View vendor s t) : s.log <+: t.log := by
  cases view with
  | answers log | admits log | faults log => exact ⟨_, log.symm⟩
  | works front log | ends front log => exact ⟨_, log.symm⟩

/-- Only a request that was queued has a task. -/
theorem Called.queued_of_alive {s t : System σ} {jsonBody : Json} {event : Event}
    (call : Called vendor s t jsonBody event) (h : t.Ledger vendor) (halive : t.IsAlive s.next) :
    event = .queued s.next := by
  by_contra hevent
  obtain ⟨task, htask, hid⟩ := halive
  have hqueued : .queued s.next ∈ about Event.subject? s.next t.log :=
    mem_about.mpr ⟨hid ▸ h.admitted task htask, rfl⟩
  rw [call.record hevent, List.mem_singleton] at hqueued
  exact hevent hqueued.symm

theorem Called.step {s t u : System σ} {jsonBody : Json} {event : Event}
    (call : Called vendor s t jsonBody event) (view : View vendor t u) (h : t.Ledger vendor)
    (hstreaming : t.Streaming) : Called vendor s u jsonBody event := by
  have hearlier := call.earlier
  constructor
  · exact Nat.lt_of_lt_of_le hearlier view.next_le
  · exact call.logged.trans view.log_grows
  · intro hevent
    have habout := call.record hevent
    have hdead : ¬t.IsAlive s.next := fun halive => hevent (call.queued_of_alive h halive)
    rw [view.record_kept hearlier hdead]
    exact habout
  · intro hevent
    exact view.log_grows.subset (call.queued hevent)
  · intro task htask hid
    rcases view.mem_alive htask with hold | hnew
    · exact call.task task hold hid
    · omega
  · intro task hforms hwhole
    rw [view.texts_kept hstreaming hearlier]
    · exact call.mute task hforms hwhole
    · intro other hother hid
      have hsame := call.task other hother hid
      rw [hforms] at hsame
      cases hsame
      exact hwhole
  · intro hevent task hforms
    apply view.endings_kept hearlier _ (call.endings hevent task hforms)
    intro other hother hid
    have hsame := call.task other hother hid
    rw [hforms] at hsame
    cases hsame
    rfl

theorem run_streaming {startTime : Nat} {maxHistoryChat : Int} {es : List (System σ × Act)}
    {t : System σ} (hrun : Run (step vendor grain) (fresh startTime maxHistoryChat) es t) :
    t.Streaming := by
  have hboth : t.Tracked ∧ t.Streaming := by
    apply run_invariant hrun (fresh_tracked startTime maxHistoryChat)
    · intro task htask
      cases htask
    · intro s act t _ _ ht hs
      exact ht.streaming hs
  exact hboth.2

theorem run_called {startTime : Nat} {maxHistoryChat : Int} {es : List (System σ × Act)}
    {s t u : System σ} {jsonBody : Json}
    (hrun : Run (step vendor grain) (fresh startTime maxHistoryChat) es t)
    (call : (s, .handleChatCompletion jsonBody) ∈ es)
    (taken : step vendor grain s (.handleChatCompletion jsonBody) = some u) :
    ∃ event, u.log = s.log ++ [event] ∧ Called vendor s t jsonBody event := by
  induction hrun with
  | nil => exact absurd call List.not_mem_nil
  | @snoc es v t act before htaken ih =>
    obtain ⟨htracked, hledger⟩ := run_ledger before
    have ht := step_transition htracked.aligned htaken
    -- made earlier and known since, or made in the last step
    rcases List.mem_append.mp call with hold | hnew
    · obtain ⟨event, hlog, hcalled⟩ := ih hold
      exact ⟨event, hlog, hcalled.step ht.2.2.view hledger (run_streaming before)⟩
    · cases List.mem_singleton.mp hnew
      cases htaken.symm.trans taken
      obtain ⟨hchat, hnext, hworker⟩ := ht.2.2.chatCall htracked
      exact hchat.called hledger hnext hworker

/-- What a streaming request has been told: chunks and then at most one terminal callback, which is
one of those that end a stream and is there once the task is gone. -/
theorem run_streamed {startTime : Nat} {maxHistoryChat : Int} {es : List (System σ × Act)}
    {s t : System σ} {jsonBody : Json} {task : Task}
    (hrun : Run (step vendor grain) (fresh startTime maxHistoryChat) es t)
    (call : (s, .handleChatCompletion jsonBody) ∈ es) (set : s.engine.modelLoaded = true)
    (forms : formTask s.engine.config s.next jsonBody = .ok task)
    (stream : task.req.stream = true) :
    ∃ rest last, about Event.subject? s.next t.log = .queued s.next :: rest ∧
      Transcript vendor rest last ∧
      (last = [] ∨ ∃ reply, last = [reply] ∧ Ending vendor true reply) ∧
      (t.fault = none → last = [] → t.IsAlive s.next) := by
  obtain ⟨before, u, hbefore, taken⟩ := hrun.reached call
  obtain ⟨event, hlog, hcalled⟩ := run_called hrun call taken
  have htracked := (run_ledger hbefore).1
  -- the flag is set and the request is well-formed, so it was queued
  have hqueued : event = .queued s.next := by
    have ht := htracked.transition taken
    cases ht with
    | chatRefused unset =>
      rw [set] at unset
      cases unset
    | chatThrew _ forms' =>
      rw [forms] at forms'
      cases forms'
    | chatQueued => simpa using hlog.symm
    | chatFaulted => simp at hlog
  obtain ⟨rest, habout, _, last, htranscript, hshape, _, hopen⟩ :=
    (run_ledger hrun).2.replied s.next (hcalled.queued hqueued)
  have hendings := hcalled.endings hqueued task forms
  rw [stream, habout] at hendings
  refine ⟨rest, last, habout, htranscript, ?_, hopen⟩
  rcases hshape with hnone | ⟨status, body, hterminal, hlast⟩
  · exact Or.inl hnone
  · refine Or.inr ⟨(status, body), hlast, hendings _ ?_ hterminal⟩
    obtain ⟨chunks, hreplies, _⟩ := htranscript
    have hsame : replies (.queued s.next :: rest) = replies rest := rfl
    rw [hsame, hreplies, hlast]
    exact List.mem_append_right _ List.mem_cons_self

/-! ## One chunk for each turn -/

/-- The text of a turn of request `id`: the guard lets it through, and no call throws. -/
def turnText? (vendor : Vendor σ) (id : Nat) (s : System σ) : Act → Option String
  | .iterate env =>
      if s.engine.turns env && !s.engine.turnThrows env then
        match s.worker, s.engine.tokenizerStream with
        | .guard task _, some stream =>
            if task.id = id then
              some (vendor.streamDecode stream.tokenizer.model.path stream.state env.token).2
            else none
        | _, _ => none
      else none
  | _ => none

theorem failed_silent {id : Nat} {epoch : Option Nat} {uses : List Event} (h : Uses id epoch uses) :
    ∀ e ∈ uses ++ failedEvents id, e.text? = none := by
  refine List.forall_mem_append.mpr ⟨List.filterMap_eq_nil_iff.mp (uses_quiet h).2, ?_⟩
  simp [failedEvents, inferenceFailedReply, Event.text?]

/-- A step tells a request a text exactly when it is a turn of its loop. -/
theorem Transition.texts_about {s t : System σ} {act : Act} (ht : Transition vendor s act t)
    (id : Nat) : texts (about Event.subject? id t.log) =
      texts (about Event.subject? id s.log) ++ (s.turnText? vendor id act).toList := by
  have hsilent {events : List Event} (log : t.log = s.log ++ events)
      (silent : ∀ e ∈ events, e.text? = none) (noTurn : s.turnText? vendor id act = none) :
      texts (about Event.subject? id t.log) =
        texts (about Event.subject? id s.log) ++ (s.turnText? vendor id act).toList := by
    have hnone : texts (about Event.subject? id events) = [] :=
      List.filterMap_eq_nil_iff.mpr fun e he => silent e (mem_about.mp he).1
    rw [log, about_append, texts_append, hnone, noTurn]
    rfl
  cases ht with
  | @turned env task sequence model state at_ holds turns succeeds =>
    have hturn : s.turnText? vendor id (.iterate env) =
        if task.id = id then some (turnText vendor env model state) else none := by
      simp [turnText?, turns, succeeds, at_, holds.tokenizerStream, turnText]
    rw [moves_log, about_append, texts_append, hturn]
    by_cases hid : task.id = id
    · rw [if_pos hid]
      simp only [about, chunkReply, Event.subject?, hid, decide_true, List.filter_cons_of_pos,
        List.filter_nil]
      rfl
    · rw [if_neg hid]
      simp [about, texts, Event.subject?, hid, chunkReply]
  -- the other outcomes of the loop test say nothing
  | loopLeft at_ tests stops => exact hsilent rfl (by simp) (by simp [turnText?, stops])
  | turnFailed at_ throws used =>
    obtain ⟨epoch, huses⟩ := used.uses
    exact hsilent rfl (failed_silent huses) (by simp [turnText?, throws])
  | turnFaulted at_ empty =>
    exact hsilent (crashes_log ..) (by simp) (by simp [turnText?, at_, empty.tokenizerStream])
  | loadFailed reads throws told =>
    refine hsilent rfl ?_ rfl
    rcases told with rfl | rfl <;> simp [Event.text?, loadedReply, loadFailedReply]
  | startFailed idle queues throws used =>
    obtain ⟨epoch, huses⟩ := used.uses
    exact hsilent rfl (failed_silent huses) rfl
  | generateFaulted idle queues holds whole succeeds used =>
    obtain ⟨epoch, huses⟩ := used.uses
    exact hsilent rfl (List.filterMap_eq_nil_iff.mp (uses_quiet huses).2) rfl
  | loadThrew | loaded | unloadRefused | unloaded | chatRefused | chatThrew | chatQueued
  | chatFaulted | embedding | modelStatus | models | streamStarted | generated | startFaulted
  | leftUnloaded | leftLoaded | tornDown | fastEnough | reloaded | reloadFailed | finished =>
    refine hsilent rfl ?_ rfl
    simp [Event.text?, loadedReply, refusal, unloadedReply, modelStatusReply, modelsReply,
      streamUnloadedReply, failedEvents, inferenceFailedReply, stopReply]

theorem run_texts {startTime : Nat} {maxHistoryChat : Int} {es : List (System σ × Act)}
    {t : System σ} (hrun : Run (step vendor grain) (fresh startTime maxHistoryChat) es t)
    (id : Nat) : texts (about Event.subject? id t.log) =
      es.filterMap fun e => e.1.turnText? vendor id e.2 := by
  apply hrun.collects (f := fun t => texts (about Event.subject? id t.log)) rfl
  intro before s act t hbefore taken
  exact ((run_ledger hbefore).1.transition taken).texts_about id

/-- What request `s.next` has been told by the time the steps `es` have led to state `t`: it threw
without a trace, or was refused with one 409, or queued exactly one task and has since been told a
row of chunks, one for each turn of its loop, and then at most one terminal callback. -/
def ReplyProtocol (vendor : Vendor σ) (grain : Grain) (es : List (System σ × Act))
    (s t : System σ) (jsonBody : Json) : Prop :=
  ∃ u, step vendor grain s (.handleChatCompletion jsonBody) = some u ∧
    ((u.engine.waiting = s.engine.waiting ∧
        about Event.subject? s.next t.log = [.threw s.next]) ∨
      (u.engine.waiting = s.engine.waiting ∧
        about Event.subject? s.next t.log = [refusal s.next]) ∨
      ∃ task rest, u.engine.waiting = s.engine.waiting ++ [task] ∧ task.id = s.next ∧
        about Event.subject? s.next t.log = .queued s.next :: rest ∧
        t.Answered vendor s.next rest ∧ (task.req.stream = false → texts rest = []) ∧
        texts rest = es.filterMap fun e => e.1.turnText? vendor s.next e.2)

/-- **The reply protocol** holds of every call of every run. -/
theorem handleChatCompletion_replies {startTime : Nat} {maxHistoryChat : Int}
    {es : List (System σ × Act)} {s t : System σ} {jsonBody : Json}
    (hrun : Run (step vendor grain) (fresh startTime maxHistoryChat) es t)
    (call : (s, .handleChatCompletion jsonBody) ∈ es) :
    ReplyProtocol vendor grain es s t jsonBody := by
  obtain ⟨before, u, hbefore, taken⟩ := hrun.reached call
  obtain ⟨event, hlog, hcalled⟩ := run_called hrun call taken
  have htracked := (run_ledger hbefore).1
  refine ⟨u, taken, ?_⟩
  obtain ⟨hchat, _, _⟩ := (htracked.transition taken).chatCall htracked
  cases hchat with
  | threw hlog' waiting =>
    have hevent : event = .threw s.next := by simpa [hlog] using hlog'
    subst hevent
    exact Or.inl ⟨waiting, hcalled.record (fun hne => by cases hne)⟩
  | refused hlog' waiting =>
    have hevent : event = refusal s.next := by simpa [hlog] using hlog'
    subst hevent
    exact Or.inr (Or.inl ⟨waiting, hcalled.record (fun hne => by cases hne)⟩)
  | @queued task forms hlog' waiting =>
    have hevent : event = .queued s.next := by simpa [hlog] using hlog'
    obtain ⟨rest, habout, hanswered⟩ := (run_ledger hrun).2.replied s.next (hcalled.queued hevent)
    have htexts := run_texts hrun s.next
    rw [habout] at htexts
    refine Or.inr (Or.inr ⟨task, rest, waiting, formTask_id forms, habout, hanswered, ?_, htexts⟩)
    intro hwhole
    have hmute := hcalled.mute task forms hwhole
    rw [habout] at hmute
    exact hmute

/-- A stream that is unloaded after its first chunk. -/
def unloadedMidStream : List Act :=
  [.loadModel {} (loadRequest "m"), .handleChatCompletion (chatRequest true "x"), .start {},
    .iterate { token := 104 }, .unloadModel (.obj []), .iterate {}, .postLoop]

theorem replies_of_unloadedMidStream :
    ∃ s t, execute (step utf8Vendor .fine) (fresh 0 0) unloadedMidStream = some t ∧
      (s, .handleChatCompletion (chatRequest true "x")) ∈
        trace (step utf8Vendor .fine) (fresh 0 0) unloadedMidStream ∧
      ReplyProtocol utf8Vendor .fine
        (trace (step utf8Vendor .fine) (fresh 0 0) unloadedMidStream) s t
        (chatRequest true "x") := by
  have hruns : (execute (step utf8Vendor .fine) (fresh 0 0) unloadedMidStream).any
      (fun t => t.fault.isNone) = true := by decide
  obtain ⟨t, hexecute, hrun, _⟩ := exists_run_of_execute hruns
  have hcall : ∃ s, (s, .handleChatCompletion (chatRequest true "x")) ∈
      trace (step utf8Vendor .fine) (fresh 0 0) unloadedMidStream :=
    ⟨_, List.Mem.tail _ (List.Mem.head _)⟩
  obtain ⟨s, hcall⟩ := hcall
  exact ⟨s, t, hexecute, hcall, handleChatCompletion_replies hrun hcall⟩

end System

end CortexOnnx
