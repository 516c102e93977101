import CortexOnnx.Lib.Amortized
import CortexOnnx.Lib.Rows

/-!
# The thread pool

`ThreadPool` of `httplib.h`, with its condition variable, and the thread of `listen_internal`, which
enqueues the connections and at the end shuts the pool down.  Every step is what one thread does
while it holds the mutex, or one notification.
-/

namespace CortexOnnx

variable {α : Type}

/-- Where a thread is in the loop of `worker`: it is about to take the mutex, it sleeps on the
condition variable, it calls `fn`, or it has left the loop. -/
inductive ThreadPool.Worker (α : Type) where
  | locking
  | waiting
  | running (fn : α)
  | exited
  deriving DecidableEq

namespace ThreadPool.Worker

def isLocking : Worker α → Bool
  | locking => true
  | _ => false

def isWaiting : Worker α → Bool
  | waiting => true
  | _ => false

def isExited : Worker α → Bool
  | exited => true
  | _ => false

/-- What it calls. -/
def job : Worker α → Option α
  | running fn => some fn
  | _ => none

/-- After a notification. -/
def roused : Worker α → Worker α
  | waiting => locking
  | worker => worker

end ThreadPool.Worker

structure ThreadPool (α : Type) where
  threads : List (ThreadPool.Worker α)
  jobs : List α
  shutdown : Bool
  maxQueuedRequests : Nat

namespace ThreadPool

def new (n mqr : Nat) : ThreadPool α where
  threads := List.replicate n .locking
  jobs := []
  shutdown := false
  maxQueuedRequests := mqr

/-- `enqueue` up to its notification; `none` where it returns false. -/
def enqueue (pool : ThreadPool α) (fn : α) : Option (ThreadPool α) :=
  if pool.maxQueuedRequests > 0 ∧ pool.jobs.length ≥ pool.maxQueuedRequests then none
  else some { pool with jobs := pool.jobs ++ [fn] }

def put (pool : ThreadPool α) (i : Nat) (worker : Worker α) : ThreadPool α :=
  { pool with threads := pool.threads.set i worker }

/-- What a thread does with the mutex: the predicate of `wait`, the test for the end, and the
front of the queue, which it takes. -/
def lock (pool : ThreadPool α) (i : Nat) : Option (Option α × ThreadPool α) :=
  match pool.threads[i]?, pool.jobs with
  | some .locking, fn :: jobs => some (some fn, { pool.put i (.running fn) with jobs })
  | some .locking, [] => some (none, pool.put i (if pool.shutdown then .exited else .waiting))
  | _, _ => none

/-- A thread that sleeps is notified, or wakes up for no reason. -/
def wake (pool : ThreadPool α) (i : Nat) : Option (ThreadPool α) :=
  match pool.threads[i]? with
  | some .waiting => some (pool.put i .locking)
  | _ => none

/-- `cond_.notify_one()`, which wakes any one of the threads that sleep. -/
def notifyOne (pool : ThreadPool α) (woken : Nat) : Option (ThreadPool α) :=
  if pool.threads.any Worker.isWaiting then pool.wake woken else some pool

/-- `cond_.notify_all()` -/
def notifyAll (pool : ThreadPool α) : ThreadPool α :=
  { pool with threads := pool.threads.map Worker.roused }

/-- The call of a job returns. -/
def finish (pool : ThreadPool α) (i : Nat) : Option (α × ThreadPool α) :=
  match pool.threads[i]? with
  | some (.running fn) => some (fn, pool.put i .locking)
  | _ => none

/-- The jobs that are being called. -/
def running (pool : ThreadPool α) : List α := pool.threads.filterMap Worker.job

end ThreadPool

/-! ## The listening thread -/

/-- Where `listen_internal` is: it accepts connections, it is at the end of `enqueue`, or within
`shutdown`, or it has returned. -/
inductive ListenPoint where
  | accepting
  | notifying
  | notifyingAll
  | joining
  | returned
  deriving DecidableEq

/-- `shutdown_` is set. -/
def ListenPoint.closing : ListenPoint → Bool
  | accepting | notifying => false
  | notifyingAll | joining | returned => true

/-- The pool and the thread that owns it, with the connections in the order in which they were
enqueued, refused, started and finished. -/
structure Listen (α : Type) where
  pool : ThreadPool α
  point : ListenPoint
  accepted : List α
  refused : List α
  started : List α
  finished : List α

namespace Listen

inductive Act (α : Type) where
  | enqueue (fn : α)
  | notifyOne (woken : Nat)
  | shutdown
  | notifyAll
  | join
  | lock (thread : Nat)
  | wake (thread : Nat)
  | finish (thread : Nat)

def step (s : Listen α) : Act α → Option (Listen α)
  | .enqueue fn =>
      if s.point = .accepting then
        match s.pool.enqueue fn with
        | some pool => some { s with pool, point := .notifying, accepted := s.accepted ++ [fn] }
        -- the socket is closed
        | none => some { s with refused := s.refused ++ [fn] }
      else none
  | .notifyOne woken =>
      if s.point = .notifying then
        (s.pool.notifyOne woken).map fun pool => { s with pool, point := .accepting }
      else none
  | .shutdown =>
      if s.point = .accepting then
        some { s with pool := { s.pool with shutdown := true }, point := .notifyingAll }
      else none
  | .notifyAll =>
      if s.point = .notifyingAll then some { s with pool := s.pool.notifyAll, point := .joining }
      else none
  | .join =>
      if s.point = .joining ∧ s.pool.threads.all ThreadPool.Worker.isExited then
        some { s with point := .returned }
      else none
  | .lock i =>
      (s.pool.lock i).map fun (taken, pool) =>
        { s with pool, started := s.started ++ taken.toList }
  | .wake i => (s.pool.wake i).map fun pool => { s with pool }
  | .finish i =>
      (s.pool.finish i).map fun (fn, pool) => { s with pool, finished := s.finished ++ [fn] }

def start (n mqr : Nat) : Listen α where
  pool := .new n mqr
  point := .accepting
  accepted := []
  refused := []
  started := []
  finished := []

/-! ## What a step does -/

/-- A step with the state that it leads to. -/
inductive Move (s : Listen α) : Act α → Listen α → Prop
  | enqueued {fn : α} (at_ : s.point = .accepting)
      (room : s.pool.maxQueuedRequests = 0 ∨ s.pool.jobs.length < s.pool.maxQueuedRequests) :
      Move s (.enqueue fn) { s with
        pool := { s.pool with jobs := s.pool.jobs ++ [fn] }, point := .notifying
        accepted := s.accepted ++ [fn] }
  | refused {fn : α} (at_ : s.point = .accepting)
      (full : 0 < s.pool.maxQueuedRequests ∧ s.pool.maxQueuedRequests ≤ s.pool.jobs.length) :
      Move s (.enqueue fn) { s with refused := s.refused ++ [fn] }
  | notified {woken : Nat} {before after : List (ThreadPool.Worker α)}
      (at_ : s.point = .notifying) (threads : s.pool.threads = before ++ .waiting :: after) :
      Move s (.notifyOne woken) { s with
        pool := { s.pool with threads := before ++ .locking :: after }, point := .accepting }
  | unheard {woken : Nat} (at_ : s.point = .notifying)
      (awake : s.pool.threads.any ThreadPool.Worker.isWaiting = false) :
      Move s (.notifyOne woken) { s with point := .accepting }
  | closed (at_ : s.point = .accepting) :
      Move s .shutdown { s with pool := { s.pool with shutdown := true }, point := .notifyingAll }
  | notifiedAll (at_ : s.point = .notifyingAll) :
      Move s .notifyAll { s with
        pool := { s.pool with threads := s.pool.threads.map ThreadPool.Worker.roused }
        point := .joining }
  | joined (at_ : s.point = .joining)
      (exited : s.pool.threads.all ThreadPool.Worker.isExited = true) :
      Move s .join { s with point := .returned }
  | took {i : Nat} {fn : α} {jobs : List α} {before after : List (ThreadPool.Worker α)}
      (threads : s.pool.threads = before ++ .locking :: after) (queued : s.pool.jobs = fn :: jobs) :
      Move s (.lock i) { s with
        pool := { s.pool with threads := before ++ .running fn :: after, jobs }
        started := s.started ++ [fn] }
  | slept {i : Nat} {before after : List (ThreadPool.Worker α)}
      (threads : s.pool.threads = before ++ .locking :: after) (empty : s.pool.jobs = [])
      (opened : s.pool.shutdown = false) :
      Move s (.lock i) { s with pool := { s.pool with threads := before ++ .waiting :: after } }
  | left {i : Nat} {before after : List (ThreadPool.Worker α)}
      (threads : s.pool.threads = before ++ .locking :: after) (empty : s.pool.jobs = [])
      (closing : s.pool.shutdown = true) :
      Move s (.lock i) { s with pool := { s.pool with threads := before ++ .exited :: after } }
  | woke {i : Nat} {before after : List (ThreadPool.Worker α)}
      (threads : s.pool.threads = before ++ .waiting :: after) :
      Move s (.wake i) { s with pool := { s.pool with threads := before ++ .locking :: after } }
  | finished {i : Nat} {fn : α} {before after : List (ThreadPool.Worker α)}
      (calls : s.pool.threads[i]? = some (.running fn))
      (threads : s.pool.threads = before ++ .running fn :: after) :
      Move s (.finish i) { s with
        pool := { s.pool with threads := before ++ .locking :: after }
        finished := s.finished ++ [fn] }

theorem step_move {s t : Listen α} {act : Act α} (taken : step s act = some t) :
    Move s act t := by
  cases act with
  | enqueue fn =>
      by_cases hat : s.point = .accepting
      · rw [step, if_pos hat, ThreadPool.enqueue] at taken
        by_cases hfull : s.pool.maxQueuedRequests > 0 ∧
            s.pool.jobs.length ≥ s.pool.maxQueuedRequests
        · rw [if_pos hfull] at taken
          cases taken
          exact .refused hat hfull
        · rw [if_neg hfull] at taken
          cases taken
          exact .enqueued hat (by omega)
      · rw [step, if_neg hat] at taken
        cases taken
  | notifyOne woken =>
      by_cases hat : s.point = .notifying
      · rw [step, if_pos hat, ThreadPool.notifyOne] at taken
        split at taken
        · rw [ThreadPool.wake] at taken
          split at taken
          · rename_i hwoken
            obtain ⟨before, after, hthreads, hset⟩ := exists_split_set hwoken
            cases taken
            rw [ThreadPool.put, hset]
            exact .notified hat hthreads
          · cases taken
        · rename_i hawake
          cases taken
          exact .unheard hat (by simpa using hawake)
      · rw [step, if_neg hat] at taken
        cases taken
  | shutdown =>
      by_cases hat : s.point = .accepting
      · rw [step, if_pos hat] at taken
        cases taken
        exact .closed hat
      · rw [step, if_neg hat] at taken
        cases taken
  | notifyAll =>
      by_cases hat : s.point = .notifyingAll
      · rw [step, if_pos hat] at taken
        cases taken
        exact .notifiedAll hat
      · rw [step, if_neg hat] at taken
        cases taken
  | join =>
      by_cases hat : s.point = .joining ∧ s.pool.threads.all ThreadPool.Worker.isExited
      · rw [step, if_pos hat] at taken
        cases taken
        exact .joined hat.1 hat.2
      · rw [step, if_neg hat] at taken
        cases taken
  | lock i =>
      obtain ⟨⟨fn, pool⟩, hlock, rfl⟩ := Option.map_eq_some_iff.mp taken
      rw [ThreadPool.lock] at hlock
      split at hlock
      · rename_i fn' jobs hthread hjobs
        obtain ⟨before, after, hthreads, hset⟩ := exists_split_set hthread
        cases hlock
        rw [ThreadPool.put, hset]
        exact .took hthreads hjobs
      · rename_i hthread hjobs
        obtain ⟨before, after, hthreads, hset⟩ := exists_split_set hthread
        cases hlock
        rw [ThreadPool.put, hset]
        dsimp only
        rw [Option.toList_none, List.append_nil]
        by_cases hclosing : s.pool.shutdown = true
        · rw [if_pos hclosing]
          exact .left hthreads hjobs hclosing
        · rw [if_neg hclosing]
          exact .slept hthreads hjobs (Bool.eq_false_iff.mpr hclosing)
      · cases hlock
  | wake i =>
      obtain ⟨pool, hwake, rfl⟩ := Option.map_eq_some_iff.mp taken
      rw [ThreadPool.wake] at hwake
      split at hwake
      · rename_i hthread
        obtain ⟨before, after, hthreads, hset⟩ := exists_split_set hthread
        cases hwake
        rw [ThreadPool.put, hset]
        exact .woke hthreads
      · cases hwake
  | finish i =>
      obtain ⟨⟨fn, pool⟩, hfinish, rfl⟩ := Option.map_eq_some_iff.mp taken
      rw [ThreadPool.finish] at hfinish
      split at hfinish
      · rename_i fn' hthread
        obtain ⟨before, after, hthreads, hset⟩ := exists_split_set hthread
        cases hfinish
        rw [ThreadPool.put, hset]
        exact .finished hthread hthreads
      · cases hfinish

/-! ## Threads that change place -/

/-- What becomes of the numbers of threads where one of them was at `a` and is now at `b`. -/
structure Swapped (threads threads' : List (ThreadPool.Worker α)) (a b : ThreadPool.Worker α) :
    Prop where
  size : threads'.length = threads.length
  waiting : threads'.countP ThreadPool.Worker.isWaiting + a.isWaiting.toNat =
    threads.countP ThreadPool.Worker.isWaiting + b.isWaiting.toNat
  locking : threads'.countP ThreadPool.Worker.isLocking + a.isLocking.toNat =
    threads.countP ThreadPool.Worker.isLocking + b.isLocking.toNat
  exited : threads'.countP ThreadPool.Worker.isExited + a.isExited.toNat =
    threads.countP ThreadPool.Worker.isExited + b.isExited.toNat
  running : (threads'.filterMap ThreadPool.Worker.job ++ a.job.toList).Perm
    (threads.filterMap ThreadPool.Worker.job ++ b.job.toList)

theorem swapped {threads before after : List (ThreadPool.Worker α)} {a : ThreadPool.Worker α}
    (h : threads = before ++ a :: after) (b : ThreadPool.Worker α) :
    Swapped threads (before ++ b :: after) a b := by
  have hcount : ∀ p : ThreadPool.Worker α → Bool,
      (before ++ b :: after).countP p + (p a).toNat = threads.countP p + (p b).toNat := by
    intro p
    rw [h, List.countP_append, List.countP_append, List.countP_cons, List.countP_cons]
    cases p a <;> cases p b <;> simp <;> omega
  have hmove : ∀ c : ThreadPool.Worker α, ((before ++ c :: after).filterMap
      ThreadPool.Worker.job).Perm ((before ++ after).filterMap ThreadPool.Worker.job ++
        c.job.toList) := by
    intro c
    rw [List.filterMap_append, List.filterMap_cons, List.filterMap_append]
    cases c.job with
    | none => rw [Option.toList_none, List.append_nil]
    | some fn => exact List.perm_middle.trans (List.perm_append_singleton fn _).symm
  refine ⟨?_, hcount _, hcount _, hcount _, ?_⟩
  · rw [h, List.length_append, List.length_append]
    rfl
  · have hb := (hmove b).append_right a.job.toList
    have ha := (hmove a).append_right b.job.toList
    rw [List.append_assoc] at ha hb
    rw [h]
    exact hb.trans ((List.perm_append_comm.append_left _).trans ha.symm)

/-- Every thread is at one of the four places. -/
theorem places (threads : List (ThreadPool.Worker α)) :
    threads.countP ThreadPool.Worker.isWaiting + threads.countP ThreadPool.Worker.isLocking +
      threads.countP ThreadPool.Worker.isExited +
      (threads.filterMap ThreadPool.Worker.job).length = threads.length := by
  induction threads with
  | nil => rfl
  | cons worker threads ih =>
      rw [List.countP_cons, List.countP_cons, List.countP_cons, List.filterMap_cons,
        List.length_cons]
      cases worker <;>
        simp only [ThreadPool.Worker.isWaiting, ThreadPool.Worker.isLocking,
          ThreadPool.Worker.isExited, ThreadPool.Worker.job, List.length_cons, if_true,
          Bool.false_eq_true, if_false] <;> omega

/-! ## What every state keeps -/

/-- Of the connections that were accepted, all but those in the queue were started, in order, and
the started ones are finished or being served. -/
structure Conserves (n mqr : Nat) (s : Listen α) : Prop where
  size : s.pool.threads.length = n
  limit : s.pool.maxQueuedRequests = mqr
  order : s.accepted = s.started ++ s.pool.jobs
  once : (s.finished ++ s.pool.running).Perm s.started
  bounded : 0 < mqr → s.pool.jobs.length ≤ mqr
  unlimited : mqr = 0 → s.refused = []

theorem start_conserves (n mqr : Nat) : (start n mqr : Listen α).Conserves n mqr := by
  have hrunning : (start n mqr : Listen α).pool.running = [] :=
    List.filterMap_replicate_of_none rfl
  refine ⟨List.length_replicate, rfl, rfl, ?_, fun _ => Nat.zero_le _, fun _ => rfl⟩
  rw [hrunning]
  exact List.Perm.refl _

/-- A thread that calls nothing goes on without a job. -/
theorem Conserves.swap {n mqr : Nat} {s : Listen α} (h : s.Conserves n mqr)
    {before after : List (ThreadPool.Worker α)} {a : ThreadPool.Worker α}
    (threads : s.pool.threads = before ++ a :: after) (b : ThreadPool.Worker α)
    (ha : a.job = none) (hb : b.job = none) : Conserves n mqr
      { s with pool := { s.pool with threads := before ++ b :: after } } := by
  have hswap := swapped threads b
  have hrunning := hswap.running
  rw [ha, hb, Option.toList_none, List.append_nil, List.append_nil] at hrunning
  exact ⟨hswap.size.trans h.size, h.limit, h.order, (hrunning.append_left _).trans h.once,
    h.bounded, h.unlimited⟩

theorem Conserves.step {n mqr : Nat} {s t : Listen α} {act : Act α} (h : s.Conserves n mqr)
    (taken : Listen.step s act = some t) : t.Conserves n mqr := by
  cases step_move taken with
  | @enqueued fn at_ room =>
      refine ⟨h.size, h.limit, ?_, h.once, ?_, h.unlimited⟩
      · show s.accepted ++ [fn] = s.started ++ (s.pool.jobs ++ [fn])
        rw [h.order, List.append_assoc]
      · intro hbound
        rw [h.limit] at room
        show (s.pool.jobs ++ [fn]).length ≤ mqr
        rw [List.length_append, List.length_singleton]
        omega
  | refused at_ full =>
      rw [h.limit] at full
      refine ⟨h.size, h.limit, h.order, h.once, h.bounded, fun hnone => ?_⟩
      omega
  | unheard | closed | joined =>
      exact ⟨h.size, h.limit, h.order, h.once, h.bounded, h.unlimited⟩
  | notified at_ threads =>
      have hswap := h.swap threads .locking rfl rfl
      exact ⟨hswap.size, hswap.limit, hswap.order, hswap.once, hswap.bounded, hswap.unlimited⟩
  | notifiedAll at_ =>
      have hjobs : (s.pool.threads.map ThreadPool.Worker.roused).filterMap ThreadPool.Worker.job =
          s.pool.running := by
        rw [List.filterMap_map, ThreadPool.running]
        apply List.filterMap_congr
        intro worker _
        cases worker <;> rfl
      refine ⟨(List.length_map _).trans h.size, h.limit, h.order, ?_, h.bounded, h.unlimited⟩
      show (s.finished ++ (s.pool.threads.map _).filterMap _).Perm s.started
      rw [hjobs]
      exact h.once
  | @took i fn jobs before after threads queued =>
      have hswap := swapped threads (.running fn)
      have hrunning := hswap.running
      rw [show (ThreadPool.Worker.locking : ThreadPool.Worker α).job.toList = [] from rfl,
        List.append_nil] at hrunning
      refine ⟨hswap.size.trans h.size, h.limit, ?_, ?_, ?_, h.unlimited⟩
      · show s.accepted = s.started ++ [fn] ++ jobs
        rw [h.order, queued, List.append_assoc]
        rfl
      · have hmore := h.once.append_right [fn]
        rw [List.append_assoc] at hmore
        exact (hrunning.append_left _).trans hmore
      · intro hbound
        have hbefore := h.bounded hbound
        rw [queued, List.length_cons] at hbefore
        exact Nat.le_of_succ_le hbefore
  | slept threads => exact h.swap threads .waiting rfl rfl
  | left threads => exact h.swap threads .exited rfl rfl
  | woke threads => exact h.swap threads .locking rfl rfl
  | @finished i fn before after calls threads =>
      have hswap := swapped threads .locking
      have hrunning := hswap.running
      rw [show (ThreadPool.Worker.locking : ThreadPool.Worker α).job.toList = [] from rfl,
        List.append_nil] at hrunning
      refine ⟨hswap.size.trans h.size, h.limit, h.order, ?_, h.bounded, h.unlimited⟩
      have hmove := List.perm_append_comm.trans hrunning
      have hall := hmove.append_left s.finished
      rw [← List.append_assoc] at hall
      exact hall.trans h.once

theorem Conserves.running_le {n mqr : Nat} {s : Listen α} (h : s.Conserves n mqr) :
    s.pool.running.length ≤ n := by
  rw [← h.size]
  exact List.length_filterMap_le _ _

/-- A job that is being called is called until it ends. -/
theorem running_kept {s t : Listen α} {act : Act α} (taken : step s act = some t) {fn : α}
    (h : fn ∈ s.pool.running) :
    fn ∈ t.pool.running ∨ ∃ i, act = .finish i ∧ s.pool.threads[i]? = some (.running fn) := by
  have hswap : ∀ {before after : List (ThreadPool.Worker α)} {a : ThreadPool.Worker α}
      (b : ThreadPool.Worker α), s.pool.threads = before ++ a :: after → a.job = none →
      fn ∈ (before ++ b :: after).filterMap ThreadPool.Worker.job := by
    intro before after a b threads ha
    have hrunning := (swapped threads b).running
    rw [ha, Option.toList_none, List.append_nil] at hrunning
    exact hrunning.symm.subset (List.mem_append_left _ h)
  cases step_move taken with
  | enqueued | refused | unheard | closed | joined => exact .inl h
  | notified at_ threads => exact .inl (hswap .locking threads rfl)
  | notifiedAll at_ =>
      obtain ⟨worker, hworker, hjob⟩ := List.mem_filterMap.mp h
      refine .inl (List.mem_filterMap.mpr ⟨worker.roused, List.mem_map_of_mem hworker, ?_⟩)
      cases worker <;> exact hjob
  | @took _ fn' _ _ _ threads => exact .inl (hswap (.running fn') threads rfl)
  | slept threads => exact .inl (hswap .waiting threads rfl)
  | left threads => exact .inl (hswap .exited threads rfl)
  | woke threads => exact .inl (hswap .locking threads rfl)
  | @finished i fn' before after calls threads =>
      by_cases hsame : fn = fn'
      · rw [hsame]
        exact .inr ⟨i, rfl, calls⟩
      · have hrunning := (swapped threads .locking).running
        have hmem := hrunning.symm.subset (List.mem_append_left _ h)
        rcases List.mem_append.mp hmem with hkept | hgone
        · exact .inl hkept
        · exact absurd (List.mem_singleton.mp hgone) hsame

/-- The notification that is still to come. -/
def pending (s : Listen α) : Nat := if s.point = .notifying then 1 else 0

/-- No wakeup is lost. -/
structure Awake (n : Nat) (s : Listen α) : Prop where
  /-- While a thread sleeps, every job in the queue has somebody who comes for it. -/
  covered : 0 < s.pool.threads.countP ThreadPool.Worker.isWaiting →
    s.pool.jobs.length ≤ s.pending + s.pool.threads.countP ThreadPool.Worker.isLocking
  flagged : s.pool.shutdown = s.point.closing
  roused : s.point = .joining ∨ s.point = .returned →
    s.pool.threads.countP ThreadPool.Worker.isWaiting = 0
  gone : 0 < s.pool.threads.countP ThreadPool.Worker.isExited →
    s.pool.shutdown = true ∧ s.pool.jobs = []
  joined : s.point = .returned → s.pool.threads.countP ThreadPool.Worker.isExited = n

theorem start_awake (n mqr : Nat) : (start n mqr : Listen α).Awake n := by
  have hnone : ∀ p : ThreadPool.Worker α → Bool, p .locking = false →
      (start n mqr).pool.threads.countP p = 0 := by
    intro p hp
    rw [start, ThreadPool.new, List.countP_replicate, hp]
    rfl
  refine ⟨fun _ => Nat.zero_le _, rfl, fun _ => hnone _ rfl, ?_, fun hpoint => by cases hpoint⟩
  intro hexited
  rw [hnone _ rfl] at hexited
  exact absurd hexited (Nat.lt_irrefl 0)

theorem Awake.step {n : Nat} {s t : Listen α} {act : Act α} (h : s.Awake n)
    (size : s.pool.threads.length = n) (taken : Listen.step s act = some t) : t.Awake n := by
  have hplaces := places s.pool.threads
  rw [size] at hplaces
  obtain ⟨hcovered, hflagged, hroused, hgone, hjoined⟩ := h
  rw [pending] at hcovered
  cases step_move taken with
  | @enqueued fn at_ room =>
      rw [at_] at hflagged hcovered
      refine ⟨fun hwaits => ?_, hflagged, fun hpoint => ?_, fun hexited => ?_,
        fun hpoint => by cases hpoint⟩
      · have hcomes := hcovered hwaits
        simp only [pending, List.length_append, List.length_singleton, if_true, reduceCtorEq,
          if_false] at hcomes ⊢
        omega
      · rcases hpoint with hpoint | hpoint <;> cases hpoint
      · have hclosing := (hgone hexited).1
        rw [hflagged] at hclosing
        cases hclosing
  | refused at_ full => exact ⟨hcovered, hflagged, hroused, hgone, hjoined⟩
  | notified at_ threads =>
      rw [at_] at hflagged hcovered
      obtain ⟨_, hw, hl, he, _⟩ := swapped threads .locking
      simp only [ThreadPool.Worker.isWaiting, ThreadPool.Worker.isLocking,
        ThreadPool.Worker.isExited, Bool.toNat_true, Bool.toNat_false] at hw hl he
      refine ⟨fun hwaits => ?_, hflagged, fun hpoint => ?_, fun hexited => ?_,
        fun hpoint => by cases hpoint⟩
      · simp only [pending, reduceCtorEq, if_true, if_false] at hwaits hcovered ⊢
        have hcomes := hcovered (by omega)
        omega
      · rcases hpoint with hpoint | hpoint <;> cases hpoint
      · dsimp only at hexited
        exact hgone (by omega)
  | unheard at_ awake =>
      rw [at_] at hflagged
      have hnone : s.pool.threads.countP ThreadPool.Worker.isWaiting = 0 := by
        simpa [List.countP_eq_zero] using awake
      refine ⟨fun hwaits => ?_, hflagged, fun _ => hnone, hgone, fun hpoint => by cases hpoint⟩
      dsimp only at hwaits
      omega
  | closed at_ =>
      rw [at_] at hcovered
      refine ⟨hcovered, rfl, fun hpoint => ?_, fun hexited => ⟨rfl, (hgone hexited).2⟩,
        fun hpoint => by cases hpoint⟩
      rcases hpoint with hpoint | hpoint <;> cases hpoint
  | notifiedAll at_ =>
      rw [at_] at hflagged
      have hnone : (s.pool.threads.map ThreadPool.Worker.roused).countP
          ThreadPool.Worker.isWaiting = 0 := by
        rw [List.countP_map, List.countP_eq_zero]
        intro worker _
        cases worker <;> exact Bool.false_ne_true
      have hsame : (s.pool.threads.map ThreadPool.Worker.roused).countP
          ThreadPool.Worker.isExited = s.pool.threads.countP ThreadPool.Worker.isExited := by
        rw [List.countP_map]
        apply List.countP_congr
        intro worker _
        cases worker <;> exact Iff.rfl
      refine ⟨fun hwaits => ?_, hflagged, fun _ => hnone, fun hexited => ?_,
        fun hpoint => by cases hpoint⟩
      · dsimp only at hwaits
        omega
      · dsimp only at hexited
        exact hgone (by omega)
  | joined at_ exited =>
      rw [at_] at hflagged hcovered
      refine ⟨hcovered, hflagged, fun _ => hroused (Or.inl at_), hgone, fun _ => ?_⟩
      rw [← size]
      exact List.countP_eq_length.mpr (List.all_eq_true.mp exited)
  | @took i fn jobs before after threads queued =>
      obtain ⟨_, hw, hl, he, _⟩ := swapped threads (.running fn)
      simp only [ThreadPool.Worker.isWaiting, ThreadPool.Worker.isLocking,
        ThreadPool.Worker.isExited, Bool.toNat_true, Bool.toNat_false] at hw hl he
      refine ⟨fun hwaits => ?_, hflagged, fun hpoint => ?_, fun hexited => ?_, fun hpoint => ?_⟩
      · have hcomes := hcovered (Nat.lt_of_lt_of_eq hwaits hw)
        rw [queued, List.length_cons] at hcomes
        simp only [pending]
        omega
      · have hnone := hroused hpoint
        dsimp only
        omega
      -- whoever left the loop saw an empty queue
      · have hempty := (hgone (Nat.lt_of_lt_of_eq hexited he)).2
        rw [queued] at hempty
        cases hempty
      · have hall := hjoined hpoint
        omega
  | slept threads empty opened =>
      have hnot : s.point.closing = false := by rw [← hflagged, opened]
      obtain ⟨_, hw, hl, he, _⟩ := swapped threads .waiting
      simp only [ThreadPool.Worker.isWaiting, ThreadPool.Worker.isLocking,
        ThreadPool.Worker.isExited, Bool.toNat_true, Bool.toNat_false] at hw hl he
      refine ⟨fun _ => ?_, hflagged, fun hpoint => ?_, fun hexited => ?_, fun hpoint => ?_⟩
      · dsimp only
        rw [empty]
        exact Nat.zero_le _
      · rcases hpoint with hpoint | hpoint <;>
          · dsimp only at hpoint
            rw [hpoint] at hnot
            cases hnot
      · have hclosing := (hgone (Nat.lt_of_lt_of_eq hexited he)).1
        rw [opened] at hclosing
        cases hclosing
      · dsimp only at hpoint
        rw [hpoint] at hnot
        cases hnot
  | left threads empty closing =>
      obtain ⟨_, hw, hl, he, _⟩ := swapped threads .exited
      simp only [ThreadPool.Worker.isWaiting, ThreadPool.Worker.isLocking,
        ThreadPool.Worker.isExited, Bool.toNat_true, Bool.toNat_false] at hw hl he
      refine ⟨fun _ => ?_, hflagged, fun hpoint => ?_, fun _ => ⟨closing, empty⟩, fun hpoint => ?_⟩
      · dsimp only
        rw [empty]
        exact Nat.zero_le _
      · have hnone := hroused hpoint
        dsimp only
        omega
      · have hall := hjoined hpoint
        omega
  | woke threads =>
      obtain ⟨_, hw, hl, he, _⟩ := swapped threads .locking
      simp only [ThreadPool.Worker.isWaiting, ThreadPool.Worker.isLocking,
        ThreadPool.Worker.isExited, Bool.toNat_true, Bool.toNat_false] at hw hl he
      refine ⟨fun _ => ?_, hflagged, fun hpoint => ?_, fun hexited => ?_, fun hpoint => ?_⟩
      · have hcomes := hcovered (by omega)
        simp only [pending]
        omega
      · have hnone := hroused hpoint
        omega
      · exact hgone (Nat.lt_of_lt_of_eq hexited he)
      · have hall := hjoined hpoint
        dsimp only
        omega
  | finished calls threads =>
      obtain ⟨_, hw, hl, he, _⟩ := swapped threads .locking
      simp only [ThreadPool.Worker.isWaiting, ThreadPool.Worker.isLocking,
        ThreadPool.Worker.isExited, Bool.toNat_true, Bool.toNat_false] at hw hl he
      refine ⟨fun hwaits => ?_, hflagged, fun hpoint => ?_, fun hexited => ?_, fun hpoint => ?_⟩
      · have hcomes := hcovered (Nat.lt_of_lt_of_eq hwaits hw)
        simp only [pending]
        omega
      · have hnone := hroused hpoint
        dsimp only
        omega
      · exact hgone (Nat.lt_of_lt_of_eq hexited he)
      · have hall := hjoined hpoint
        dsimp only
        omega

theorem run_invariants {n mqr : Nat} {es : List (Listen α × Act α)} {t : Listen α}
    (hrun : Run step (start n mqr) es t) : t.Conserves n mqr ∧ t.Awake n := by
  apply hrun.invariant (I := fun s => s.Conserves n mqr ∧ s.Awake n)
  · exact ⟨start_conserves n mqr, start_awake n mqr⟩
  · intro s act t hs htaken
    exact ⟨hs.1.step htaken, hs.2.step hs.1.size htaken⟩

/-! ## What comes of the connections -/

/-- When the listening thread has joined the others, nothing is left. -/
theorem finished_of_returned {n mqr : Nat} {s : Listen α} (staffed : 0 < n)
    (conserves : s.Conserves n mqr) (awake : s.Awake n) (returned : s.point = .returned) :
    s.finished.Perm s.accepted := by
  have hexited := awake.joined returned
  have hempty := (awake.gone (by omega)).2
  have hplaces := places s.pool.threads
  rw [conserves.size] at hplaces
  have hidle : s.pool.running = [] := by
    apply List.eq_nil_of_length_eq_zero
    show (s.pool.threads.filterMap ThreadPool.Worker.job).length = 0
    omega
  have honce := conserves.once
  rw [hidle, List.append_nil] at honce
  rw [conserves.order, hempty, List.append_nil]
  exact honce

/-- **The thread pool serves every connection once**, in any interleaving.  The accepted connections
are started in order, at most `n` of them are served at a time, none is refused where the queue is
not limited, and when the listening thread returns all of them are finished. -/
theorem run_serves {n mqr : Nat} (staffed : 0 < n) {es : List (Listen α × Act α)} {t : Listen α}
    (hrun : Run step (start n mqr) es t) :
    t.accepted = t.started ++ t.pool.jobs ∧ (t.finished ++ t.pool.running).Perm t.started ∧
      t.pool.running.length ≤ n ∧ (mqr = 0 → t.refused = []) ∧
      (t.point = .returned → t.finished.Perm t.accepted) := by
  obtain ⟨hconserves, hawake⟩ := run_invariants hrun
  exact ⟨hconserves.order, hconserves.once, hconserves.running_le, hconserves.unlimited,
    finished_of_returned staffed hconserves hawake⟩

/-- Two threads, one of which sleeps when the connection comes in, and a clean end. -/
theorem serves_of_oneConnection : ∃ es t, Run step (start 2 0 : Listen Nat) es t ∧
    t.point = .returned ∧ t.finished.Perm t.accepted := by
  have hruns : (execute step (start 2 0 : Listen Nat) [.lock 0, .enqueue 7, .notifyOne 0, .lock 1,
      .lock 0, .shutdown, .finish 1, .notifyAll, .lock 0, .lock 1, .join]).any
      (fun t => t.point = .returned) = true := by decide
  obtain ⟨t, _, hrun, hpoint⟩ := exists_run_of_execute hruns
  have hreturned : t.point = .returned := of_decide_eq_true hpoint
  exact ⟨_, t, hrun, hreturned, (run_serves (by decide) hrun).2.2.2.2 hreturned⟩

theorem exists_at {threads : List (ThreadPool.Worker α)} {p : ThreadPool.Worker α → Bool}
    (h : 0 < threads.countP p) :
    ∃ (i : Nat) (worker : ThreadPool.Worker α), threads[i]? = some worker ∧ p worker = true := by
  obtain ⟨worker, hworker, hp⟩ := List.countP_pos_iff.mp h
  obtain ⟨i, hi⟩ := List.mem_iff_getElem?.mp hworker
  exact ⟨i, worker, hi, hp⟩

def Act.isHandover : Act α → Bool
  | .notifyOne _ | .lock _ => true
  | _ => false

/-- A thread that is awake takes the job at the front. -/
theorem lock_starts {s : Listen α} {i : Nat} {fn : α} {jobs : List α}
    (at_ : s.pool.threads[i]? = some .locking) (queued : s.pool.jobs = fn :: jobs) :
    ∃ t, step s (.lock i) = some t ∧ t.started = s.started ++ [fn] := by
  rw [step, ThreadPool.lock, at_, queued]
  exact ⟨_, rfl, rfl⟩

/-- **No wakeup is lost.**  Where a job is queued and not all threads are busy, notifications and
threads that are awake start it, and neither a job that ends nor a spurious wakeup is needed. -/
theorem queued_starts {n mqr : Nat} {es : List (Listen α × Act α)} {t : Listen α}
    (hrun : Run step (start n mqr) es t) {fn : α} {jobs : List α}
    (queued : t.pool.jobs = fn :: jobs) (idle : t.pool.running.length < n) :
    ∃ es' u, Run step t es' u ∧ EveryStep (fun _ act => act.isHandover = true) es' ∧
      es'.length ≤ 2 ∧ u.started = t.started ++ [fn] := by
  obtain ⟨hconserves, hawake⟩ := run_invariants hrun
  have hplaces := places t.pool.threads
  rw [hconserves.size] at hplaces
  have hidle : (t.pool.threads.filterMap ThreadPool.Worker.job).length < n := idle
  have hnone : t.pool.threads.countP ThreadPool.Worker.isExited = 0 := by
    by_contra hsome
    have hempty := (hawake.gone (by omega)).2
    rw [queued] at hempty
    cases hempty
  by_cases hlocking : 0 < t.pool.threads.countP ThreadPool.Worker.isLocking
  · obtain ⟨i, worker, hat, hworker⟩ := exists_at hlocking
    cases worker <;> cases hworker
    obtain ⟨u, htaken, hstarted⟩ := lock_starts hat queued
    refine ⟨_, u, Run.nil.snoc htaken, ?_, Nat.le_succ 1, hstarted⟩
    exact everyStep_snoc.mpr ⟨everyStep_nil, rfl⟩
  -- all idle threads sleep, so the notification is still to come
  · have hwaiting : 0 < t.pool.threads.countP ThreadPool.Worker.isWaiting := by omega
    have hcomes := hawake.covered hwaiting
    rw [queued, List.length_cons, pending] at hcomes
    have hpoint : t.point = .notifying := by
      by_contra hnot
      rw [if_neg hnot] at hcomes
      omega
    obtain ⟨i, worker, hat, hworker⟩ := exists_at hwaiting
    cases worker <;> cases hworker
    have hany : t.pool.threads.any ThreadPool.Worker.isWaiting = true :=
      List.any_eq_true.mpr ⟨_, List.mem_of_getElem? hat, rfl⟩
    have hnotified : step t (.notifyOne i) =
        some { t with pool := t.pool.put i .locking, point := .accepting } := by
      rw [step, if_pos hpoint, ThreadPool.notifyOne, if_pos hany, ThreadPool.wake, hat]
      rfl
    have hi : i < t.pool.threads.length := (List.getElem?_eq_some_iff.mp hat).1
    obtain ⟨u, htaken, hstarted⟩ := lock_starts
      (s := { t with pool := t.pool.put i .locking, point := .accepting })
      (List.getElem?_set_self hi) queued
    refine ⟨_, u, (Run.nil.snoc hnotified).snoc htaken, ?_, Nat.le_refl 2, hstarted⟩
    exact everyStep_snoc.mpr
      ⟨everyStep_snoc.mpr ⟨everyStep_nil, rfl⟩, rfl⟩

/-- Both threads sleep. -/
theorem queued_starts_twoAsleep : ∃ es t es' u, Run step (start 2 0 : Listen Nat) es t ∧
    t.pool.jobs = [7] ∧ Run step t es' u ∧ EveryStep (fun _ act => act.isHandover = true) es' ∧
      es'.length ≤ 2 ∧ u.started = t.started ++ [7] := by
  have hruns : (execute step (start 2 0 : Listen Nat) [.lock 0, .lock 1, .enqueue 7]).any
      (fun t => t.pool.jobs = [7] && t.pool.running.length < 2) = true := by decide
  obtain ⟨t, _, hrun, hqueued⟩ := exists_run_of_execute hruns
  obtain ⟨hjobs, hidle⟩ := Bool.and_eq_true_iff.mp hqueued
  obtain ⟨es', u, hstarts⟩ := queued_starts hrun (of_decide_eq_true hjobs) (of_decide_eq_true hidle)
  exact ⟨_, t, es', u, hrun, of_decide_eq_true hjobs, hstarts⟩

/-! ## Shutting down -/

end Listen

/-- The steps that a thread still takes, apart from the jobs. -/
def ThreadPool.Worker.stepsLeft : ThreadPool.Worker α → Nat
  | exited => 0
  | locking => 1
  | waiting | running _ => 2

def ListenPoint.stepsLeft : ListenPoint → Nat
  | returned => 0
  | accepting | notifying | joining => 1
  | notifyingAll => 2

namespace Listen

/-- The steps that are left once the pool is being shut down. -/
def stepsLeft (s : Listen α) : Nat :=
  s.point.stepsLeft + 2 * s.pool.jobs.length +
    (s.pool.threads.map ThreadPool.Worker.stepsLeft).sum

theorem sum_stepsLeft {before after : List (ThreadPool.Worker α)} {a : ThreadPool.Worker α} :
    ((before ++ a :: after).map ThreadPool.Worker.stepsLeft).sum =
      a.stepsLeft + ((before ++ after).map ThreadPool.Worker.stepsLeft).sum := by
  rw [List.map_append, List.map_cons, List.sum_append, List.sum_cons, List.map_append,
    List.sum_append]
  omega

theorem closing_step {n : Nat} {s t : Listen α} {act : Act α} (h : s.Awake n)
    (closing : s.point.closing = true) (taken : step s act = some t) :
    t.point.closing = true ∧ t.stepsLeft < s.stepsLeft := by
  have hnot : ∀ {point : ListenPoint}, point.closing = false → s.point ≠ point := by
    rintro point hopen rfl
    rw [closing] at hopen
    cases hopen
  cases step_move taken with
  | enqueued at_ | refused at_ | closed at_ => exact absurd at_ (hnot rfl)
  | notified at_ | unheard at_ => exact absurd at_ (hnot rfl)
  | notifiedAll at_ =>
      have hless : ∀ threads : List (ThreadPool.Worker α),
          ((threads.map ThreadPool.Worker.roused).map ThreadPool.Worker.stepsLeft).sum ≤
            (threads.map ThreadPool.Worker.stepsLeft).sum := by
        intro threads
        induction threads with
        | nil => exact Nat.le_refl 0
        | cons worker threads ih =>
            have hone : worker.roused.stepsLeft ≤ worker.stepsLeft := by
              cases worker <;> simp [ThreadPool.Worker.roused, ThreadPool.Worker.stepsLeft]
            rw [List.map_cons, List.map_cons, List.map_cons, List.sum_cons, List.sum_cons]
            exact Nat.add_le_add hone ih
      have hthreads := hless s.pool.threads
      refine ⟨rfl, ?_⟩
      rw [stepsLeft, stepsLeft, at_]
      simp only [ListenPoint.stepsLeft]
      omega
  | joined at_ =>
      refine ⟨rfl, ?_⟩
      rw [stepsLeft, stepsLeft, at_]
      simp only [ListenPoint.stepsLeft]
      omega
  | took threads queued =>
      refine ⟨closing, ?_⟩
      rw [stepsLeft, stepsLeft, threads, queued, sum_stepsLeft, sum_stepsLeft, List.length_cons]
      simp only [ThreadPool.Worker.stepsLeft]
      omega
  | slept threads empty opened =>
      rw [h.flagged, closing] at opened
      cases opened
  | left threads | woke threads | finished _ threads =>
      refine ⟨closing, ?_⟩
      rw [stepsLeft, stepsLeft, threads, sum_stepsLeft, sum_stepsLeft]
      simp only [ThreadPool.Worker.stepsLeft]
      omega

/-- The listening thread gets to its loop, and from there to its end. -/
theorem notify_goesOn {s : Listen α} (h : s.point = .notifying) :
    ∃ woken t, step s (.notifyOne woken) = some t ∧ t.point = .accepting := by
  by_cases hany : s.pool.threads.any ThreadPool.Worker.isWaiting = true
  · obtain ⟨worker, hworker, hwaits⟩ := List.any_eq_true.mp hany
    obtain ⟨i, hi⟩ := List.mem_iff_getElem?.mp hworker
    cases worker <;> cases hwaits
    have htaken : step s (.notifyOne i) =
        some { s with pool := s.pool.put i .locking, point := .accepting } := by
      rw [step, if_pos h, ThreadPool.notifyOne, if_pos hany, ThreadPool.wake, hi]
      rfl
    exact ⟨i, _, htaken, rfl⟩
  · have htaken : step s (.notifyOne 0) = some { s with point := .accepting } := by
      rw [step, if_pos h, ThreadPool.notifyOne, if_neg hany]
      rfl
    exact ⟨0, _, htaken, rfl⟩

theorem shutdown_goesOn {s : Listen α} (h : s.point = .accepting) :
    ∃ t, step s .shutdown = some t ∧ t.point.closing = true := by
  rw [step, if_pos h]
  exact ⟨_, rfl, rfl⟩

/-- Somebody can go on until the listening thread has returned. -/
theorem closing_goesOn {n : Nat} {s : Listen α} (h : s.Awake n)
    (closing : s.point.closing = true) :
    s.point = .returned ∨ ∃ act t, step s act = some t := by
  cases hpoint : s.point with
  | returned => exact .inl rfl
  | accepting | notifying =>
      rw [hpoint] at closing
      cases closing
  | notifyingAll => exact .inr ⟨.notifyAll, _, by rw [step, if_pos hpoint]⟩
  | joining =>
      apply Or.inr
      by_cases hall : s.pool.threads.all ThreadPool.Worker.isExited = true
      · exact ⟨.join, _, by rw [step, if_pos ⟨hpoint, hall⟩]⟩
      · -- a thread that has not left can take the mutex or end its job
        obtain ⟨worker, hworker, hnot⟩ : ∃ worker ∈ s.pool.threads,
            worker.isExited = false := by simpa using hall
        obtain ⟨i, hi⟩ := List.mem_iff_getElem?.mp hworker
        cases worker with
        | exited => cases hnot
        | waiting =>
            have hnone := List.countP_eq_zero.mp (h.roused (Or.inl hpoint)) _ hworker
            exact absurd rfl hnone
        | locking =>
            cases hjobs : s.pool.jobs with
            | nil => exact ⟨.lock i, _, by rw [step, ThreadPool.lock, hi, hjobs]; rfl⟩
            | cons fn jobs => exact ⟨.lock i, _, by rw [step, ThreadPool.lock, hi, hjobs]; rfl⟩
        | running fn => exact ⟨.finish i, _, by rw [step, ThreadPool.finish, hi]; rfl⟩

/-- **Shutdown terminates.**  Once the pool is being shut down, no run is longer than `stepsLeft`,
and none stops before the listening thread has returned, as long as the jobs end. -/
theorem closing_returns {n mqr : Nat} {es es' : List (Listen α × Act α)} {t u : Listen α}
    (hrun : Run step (start n mqr) es t) (closing : t.point.closing = true)
    (hrun' : Run step t es' u) : es'.length + u.stepsLeft ≤ t.stepsLeft ∧
      (u.point = .returned ∨ ∃ act v, step u act = some v) := by
  have hstart := run_invariants hrun
  have hkeeps : (u.Conserves n mqr ∧ u.Awake n) ∧ u.point.closing = true ∧
      es'.length + u.stepsLeft ≤ t.stepsLeft := by
    induction hrun' with
    | nil => exact ⟨hstart, closing, Nat.le_of_eq (Nat.zero_add _)⟩
    | snoc _ taken ih =>
        obtain ⟨⟨hconserves, hawake⟩, hclosing, hsteps⟩ := ih
        obtain ⟨hstill, hless⟩ := closing_step hawake hclosing taken
        refine ⟨⟨hconserves.step taken, hawake.step hconserves.size taken⟩, hstill, ?_⟩
        rw [List.length_append, List.length_singleton]
        omega
  exact ⟨hkeeps.2.2, closing_goesOn hkeeps.1.2 hkeeps.2.1⟩

/-- The pool is shut down while a connection waits and a thread sleeps. -/
theorem closing_returns_oneQueued : ∃ es t es' u, Run step (start 2 0 : Listen Nat) es t ∧
    t.point.closing = true ∧ Run step t es' u ∧ es'.length + u.stepsLeft ≤ t.stepsLeft ∧
      (u.point = .returned ∨ ∃ act v, step u act = some v) := by
  have hruns : (execute step (start 2 0 : Listen Nat)
      [.lock 0, .lock 1, .enqueue 7, .notifyOne 1, .shutdown]).any
      (fun t => t.point.closing && (execute step t [.notifyAll, .lock 0, .lock 1]).isSome) =
        true := by decide
  obtain ⟨t, _, hrun, hboth⟩ := exists_run_of_execute hruns
  obtain ⟨hclosing, hgoes⟩ := Bool.and_eq_true_iff.mp hboth
  obtain ⟨u, hu⟩ := Option.isSome_iff_exists.mp hgoes
  have hrun' := run_of_execute hu
  exact ⟨_, t, _, u, hrun, hclosing, hrun', closing_returns hrun hclosing hrun'⟩

end Listen

end CortexOnnx
