import MyDemo.Lib.Ring
import Mathlib.Data.Int.Notation

/-!
# The thread pool

`ijkthreadpool.c`, where the calls of `pthread` other than the one that starts a thread do not fail. `τ` is the type of
the tasks, and memory that no task has been written to is `none`.
-/

namespace MyDemo.Ijkmedia

def MAX_THREADS : ℕ := 100

def MAX_QUEUE : ℕ := 1024

def IJK_THREADPOOL_INVALID : ℤ := -1

def IJK_THREADPOOL_QUEUE_FULL : ℤ := -3

def IJK_THREADPOOL_SHUTDOWN : ℤ := -4

/-- `RUNNING` is the value 0. -/
inductive IjkThreadPoolShutdownType where
  | RUNNING
  | IJK_IMMEDIATE_SHUTDOWN
  | IJK_LEISURELY_SHUTDOWN
  deriving DecidableEq, Repr

structure IjkThreadPoolContext (τ : Type*) where
  queue : List (Option τ)
  thread_count : ℕ
  queue_size : ℕ
  queue_head : ℕ
  queue_tail : ℕ
  pending_count : ℕ
  shutdown : IjkThreadPoolShutdownType
  started_count : ℕ
  deriving DecidableEq, Repr

variable {τ : Type*}

namespace IjkThreadPoolContext

/-- What `calloc` and the start of `threads` threads leave. -/
def create (threads queue_size : ℕ) : IjkThreadPoolContext τ :=
  ⟨List.replicate queue_size none, threads, queue_size, 0, 0, 0, .RUNNING, threads⟩

/-- The queue is made larger before its last slot is taken. -/
def growsTo (ctx : IjkThreadPoolContext τ) : ℕ :=
  if ctx.queue_size * 2 > MAX_QUEUE then MAX_QUEUE else ctx.queue_size * 2

/-- `realloc` keeps the tasks where they are. -/
def grow (ctx : IjkThreadPoolContext τ) (allocated : Bool) : IjkThreadPoolContext τ :=
  if ctx.pending_count + 1 = ctx.queue_size ∧ allocated then
    { ctx with
      queue := ctx.queue ++ List.replicate (ctx.growsTo - ctx.queue_size) none
      queue_size := ctx.growsTo }
  else ctx

/-- The task is written to the tail of the queue. -/
def put (ctx : IjkThreadPoolContext τ) (task : τ) : IjkThreadPoolContext τ :=
  { ctx with
    queue := ctx.queue.set ctx.queue_tail (some task)
    queue_tail := (ctx.queue_tail + 1) % ctx.queue_size
    pending_count := ctx.pending_count + 1 }

/-- `none` is a task without a function. -/
def ijk_threadpool_add (ctx : IjkThreadPoolContext τ) (task : Option τ) (allocated : Bool) :
    IjkThreadPoolContext τ × ℤ :=
  match task with
  | none => (ctx, IJK_THREADPOOL_INVALID)
  | some task =>
      if ctx.pending_count = MAX_QUEUE ∨ ctx.pending_count = ctx.queue_size then (ctx, IJK_THREADPOOL_QUEUE_FULL)
      else
        let ctx := ctx.grow allocated
        if ctx.shutdown ≠ .RUNNING then (ctx, IJK_THREADPOOL_SHUTDOWN)
        else (ctx.put task, 0)

/-- A thread waits while there is neither a task nor a shutdown. -/
def Waits (ctx : IjkThreadPoolContext τ) : Prop := ctx.pending_count = 0 ∧ ctx.shutdown = .RUNNING

def Leaves (ctx : IjkThreadPoolContext τ) : Prop :=
  ctx.shutdown = .IJK_IMMEDIATE_SHUTDOWN ∨ ctx.shutdown = .IJK_LEISURELY_SHUTDOWN ∧ ctx.pending_count = 0

instance (ctx : IjkThreadPoolContext τ) : Decidable ctx.Waits := inferInstanceAs (Decidable (_ ∧ _))

instance (ctx : IjkThreadPoolContext τ) : Decidable ctx.Leaves := inferInstanceAs (Decidable (_ ∨ _))

/-- What lies at the head of the queue is the task. -/
def grab (ctx : IjkThreadPoolContext τ) : IjkThreadPoolContext τ × Option τ :=
  ({ ctx with queue_head := (ctx.queue_head + 1) % ctx.queue_size, pending_count := ctx.pending_count - 1 },
    ctx.queue[ctx.queue_head]?.join)

def ijk_threadpool_free (ctx : IjkThreadPoolContext τ) : ℤ := if ctx.started_count > 0 then -1 else 0

end IjkThreadPoolContext

/-! ## The threads -/

inductive PoolThread (τ : Type*) where
  /-- It is before the lock at the begin of its loop. -/
  | ready
  | runs (task : Option τ)
  | exited
  deriving DecidableEq, Repr

def PoolThread.exited? : PoolThread τ → Bool
  | .exited => true
  | _ => false

/-- `locked` tells that a call has returned without giving the lock back. `joining` is set while
`ijk_threadpool_destroy` joins the threads, and `result` when it has freed the pool. `accepted` are the tasks that were
added, and `grabbed` is what the threads took for tasks. -/
structure ThreadPool (τ : Type*) where
  ctx : IjkThreadPoolContext τ
  threads : List (PoolThread τ)
  locked : Bool
  joining : Bool
  result : Option ℤ
  accepted : List τ
  grabbed : List (Option τ)
  deriving DecidableEq, Repr

namespace ThreadPool

def ijk_threadpool_create (threads queue_size : ℕ) : Option (ThreadPool τ) :=
  if threads = 0 ∨ threads > MAX_THREADS ∨ queue_size = 0 ∨ queue_size > MAX_QUEUE then none
  else some ⟨.create threads queue_size, List.replicate threads .ready, false, false, none, [], []⟩

/-- `pthread_create` has failed after `threads` threads, so that the pool is destroyed with the flags 0. -/
def createFailed (threads queue_size : ℕ) : ThreadPool τ :=
  ⟨.create threads queue_size, List.replicate threads .ready, false, true, none, [], []⟩

inductive Event (τ : Type*) where
  | add (task : Option τ) (allocated : Bool)
  /-- The next step of a thread. -/
  | work (i : ℕ)
  | destroy (flags : IjkThreadPoolShutdownType)
  /-- All threads have been joined, and `ijk_threadpool_free` takes the lock. -/
  | join
  deriving DecidableEq, Repr

def accept (s : ThreadPool τ) (task : Option τ) (ret : ℤ) : List τ :=
  if ret = 0 then s.accepted ++ task.toList else s.accepted

def workStep (s : ThreadPool τ) (i : ℕ) : Option (ThreadPool τ) :=
  match s.threads[i]? with
  | some (.runs _) => some { s with threads := s.threads.set i .ready }
  | some .ready =>
      if s.locked then none
      else if s.ctx.Waits then some s
      else if s.ctx.Leaves then
        some { s with
          ctx := { s.ctx with started_count := s.ctx.started_count - 1 }
          threads := s.threads.set i .exited }
      else
        some { s with
          ctx := s.ctx.grab.1
          threads := s.threads.set i (.runs s.ctx.grab.2)
          grabbed := s.grabbed ++ [s.ctx.grab.2] }
  | _ => none

/-- A second call breaks off with the lock held. -/
def destroyStep (s : ThreadPool τ) (flags : IjkThreadPoolShutdownType) : Option (ThreadPool τ) :=
  if s.locked then none
  else if s.ctx.shutdown ≠ .RUNNING then some { s with locked := true }
  else some { s with ctx := { s.ctx with shutdown := flags }, joining := true }

def AllExited (s : ThreadPool τ) : Prop := ∀ thread ∈ s.threads, thread.exited? = true

instance (s : ThreadPool τ) : Decidable s.AllExited := inferInstanceAs (Decidable (∀ _ ∈ _, _))

/-- Nothing is called with a pool that has been freed. -/
def step (s : ThreadPool τ) (e : Event τ) : Option (ThreadPool τ) :=
  if s.result = some 0 then none
  else
    match e with
    | .add task allocated =>
        if s.locked ∧ task.isSome then none
        else
          let r := s.ctx.ijk_threadpool_add task allocated
          some { s with ctx := r.1, accepted := s.accept task r.2 }
    | .work i => s.workStep i
    | .destroy flags => s.destroyStep flags
    | .join =>
        if s.joining ∧ s.AllExited ∧ s.locked = false then
          some { s with joining := false, result := some s.ctx.ijk_threadpool_free }
        else none

end ThreadPool

end MyDemo.Ijkmedia
