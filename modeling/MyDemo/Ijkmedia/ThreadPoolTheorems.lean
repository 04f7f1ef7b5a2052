import MyDemo.Ijkmedia.ThreadPool
import MyDemo.Lib.Transition
import Mathlib.Algebra.Ring.Nat
import Mathlib.Data.Set.List

/-!
# Tasks of the thread pool
-/

namespace MyDemo.Ijkmedia

open Transition

variable {τ : Type*}

namespace IjkThreadPoolContext

variable {ctx : IjkThreadPoolContext τ} {tasks : List τ} {allocated : Bool}

/-- The pending tasks lie in the queue from its head on. -/
structure Holds (ctx : IjkThreadPoolContext τ) (tasks : List τ) : Prop where
  pending_count : ctx.pending_count = tasks.length
  queue : Ring.Holds ctx.queue ctx.queue_head (tasks.map some)

/-- The queue is moved to larger memory. -/
def Grows (ctx : IjkThreadPoolContext τ) (allocated : Bool) : Prop :=
  ctx.pending_count + 1 = ctx.queue_size ∧ allocated = true ∧ ctx.queue_size < MAX_QUEUE

structure Shape (ctx : IjkThreadPoolContext τ) : Prop where
  length : ctx.queue.length = ctx.queue_size
  head : ctx.queue_head < ctx.queue_size
  size : ctx.queue_size ≤ MAX_QUEUE
  pending : ctx.pending_count ≤ ctx.queue_size
  tail : ctx.shutdown = .RUNNING → ctx.queue_tail = (ctx.queue_head + ctx.pending_count) % ctx.queue_size

theorem grow_of_not (hsize : ctx.queue_size ≤ MAX_QUEUE) (h : ¬ctx.Grows allocated) : ctx.grow allocated = ctx := by
  rw [grow]
  split
  case isTrue hgrows =>
      have hmax : ctx.queue_size = MAX_QUEUE := le_antisymm hsize (not_lt.mp fun hlt => h ⟨hgrows.1, hgrows.2, hlt⟩)
      have hto : ctx.growsTo = ctx.queue_size := by
        rw [growsTo, hmax]
        rfl
      rw [hto, Nat.sub_self, List.replicate_zero, List.append_nil]
  case isFalse => rfl

theorem grow_of (h : ctx.Grows allocated) :
    ctx.grow allocated = { ctx with
      queue := ctx.queue ++ List.replicate (ctx.growsTo - ctx.queue_size) none
      queue_size := ctx.growsTo } := if_pos ⟨h.1, h.2.1⟩

theorem lt_growsTo (h : ctx.Grows allocated) : ctx.queue_size < ctx.growsTo ∧ ctx.growsTo ≤ MAX_QUEUE := by
  obtain ⟨hpending, _, hlt⟩ := h
  rw [growsTo]
  split
  · exact ⟨hlt, le_refl _⟩
  · exact ⟨by omega, by omega⟩

theorem Shape.put (h : ctx.Shape) (hrunning : ctx.shutdown = .RUNNING) (hpending : ctx.pending_count < ctx.queue_size)
    (task : τ) : (ctx.put task).Shape := by
  refine ⟨by rw [IjkThreadPoolContext.put, List.length_set, h.length], h.head, h.size, hpending, fun _ => ?_⟩
  change (ctx.queue_tail + 1) % ctx.queue_size = (ctx.queue_head + (ctx.pending_count + 1)) % ctx.queue_size
  rw [h.tail hrunning, Nat.mod_add_mod, Nat.add_assoc]

theorem Holds.put (h : ctx.Holds tasks) (hshape : ctx.Shape) (hrunning : ctx.shutdown = .RUNNING)
    (hpending : ctx.pending_count < ctx.queue_size) (task : τ) : (ctx.put task).Holds (tasks ++ [task]) := by
  have hlt : (tasks.map some).length < ctx.queue.length := by
    rw [List.length_map, hshape.length, ← h.pending_count]
    exact hpending
  have hconcat := h.queue.concat hlt (some task)
  rw [List.length_map, hshape.length, ← h.pending_count, ← hshape.tail hrunning] at hconcat
  refine ⟨?_, ?_⟩
  · rw [List.length_append, List.length_singleton, ← h.pending_count]
    rfl
  · rw [List.map_append]
    exact hconcat

theorem Shape.grow (h : ctx.Shape) (hgrows : ctx.Grows allocated)
    (hstart : ctx.queue_head = 0 ∨ ctx.shutdown ≠ .RUNNING) : (ctx.grow allocated).Shape := by
  obtain ⟨hlt, hle⟩ := lt_growsTo hgrows
  have hpending := hgrows.1
  rw [grow_of hgrows]
  refine ⟨?_, h.head.trans hlt, hle, h.pending.trans hlt.le, fun hrunning => ?_⟩
  · rw [List.length_append, List.length_replicate, h.length]
    exact Nat.add_sub_cancel' hlt.le
  · have hhead : ctx.queue_head = 0 := hstart.resolve_right fun hne => hne hrunning
    change ctx.queue_tail = (ctx.queue_head + ctx.pending_count) % ctx.growsTo
    rw [h.tail hrunning, hhead, Nat.mod_eq_of_lt (by omega), Nat.mod_eq_of_lt (by omega)]

theorem Holds.grow_iff (h : ctx.Holds tasks) (hshape : ctx.Shape) (hgrows : ctx.Grows allocated) :
    (ctx.grow allocated).Holds tasks ↔ ctx.queue_head ≤ 1 := by
  have hlt := (lt_growsTo hgrows).1
  have hpending := hgrows.1
  have hhead := hshape.head
  have hring := h.queue.append_replicate_iff (by rw [hshape.length]; exact hhead) (w := none)
    (fun v hv => by
      obtain ⟨t, _, rfl⟩ := List.mem_map.mp hv
      nofun) (Nat.sub_pos_of_lt hlt)
  rw [List.length_map, hshape.length, ← h.pending_count] at hring
  rw [grow_of hgrows]
  constructor
  · intro hlarge
    have hle := hring.mp hlarge.queue
    omega
  · intro hle
    exact ⟨h.pending_count, hring.mpr (by omega)⟩

/-- In larger memory the new task is not after the others, unless they begin at the first slot. -/
theorem Holds.put_grow_iff (h : ctx.Holds tasks) (hshape : ctx.Shape) (hrunning : ctx.shutdown = .RUNNING)
    (hgrows : ctx.Grows allocated) (task : τ) :
    ((ctx.grow allocated).put task).Holds (tasks ++ [task]) ↔ ctx.queue_head = 0 := by
  have hlt := (lt_growsTo hgrows).1
  have hpending := hgrows.1
  have hhead := hshape.head
  constructor
  · intro hput
    by_contra hne
    have hlength : tasks.length + 1 = ctx.queue_size := by rw [← h.pending_count, hpending]
    have hi : ctx.queue_size - ctx.queue_head < ((tasks ++ [task]).map some).length := by
      rw [List.length_map, List.length_append, List.length_singleton]
      omega
    have hget := hput.queue (ctx.queue_size - ctx.queue_head) hi
    rw [grow_of hgrows] at hget
    have htail : ctx.queue_tail ≠ ctx.queue_size := by
      rw [hshape.tail hrunning]
      exact (Nat.mod_lt _ (by omega)).ne
    change (List.set _ ctx.queue_tail _)[(ctx.queue_head + _) % (List.set _ ctx.queue_tail _).length]? = _ at hget
    rw [List.length_set, List.length_append, List.length_replicate, hshape.length, Nat.add_sub_cancel' hlt.le,
      Nat.add_sub_cancel' hhead.le, Nat.mod_eq_of_lt hlt, List.getElem?_set_ne htail,
      List.getElem?_append_right (by rw [hshape.length]), hshape.length, Nat.sub_self, List.getElem?_replicate,
      if_pos (Nat.sub_pos_of_lt hlt), List.getElem?_map] at hget
    cases hcase : (tasks ++ [task])[ctx.queue_size - ctx.queue_head]? with
    | none =>
        rw [List.length_map] at hi
        exact absurd hi (not_lt.mpr (List.getElem?_eq_none_iff.mp hcase))
    | some t =>
        rw [hcase] at hget
        cases hget
  · intro hzero
    have hgrown := (h.grow_iff hshape hgrows).mpr (by omega)
    have hrunning' : (ctx.grow allocated).shutdown = .RUNNING := by rw [grow_of hgrows]; exact hrunning
    have hroom : (ctx.grow allocated).pending_count < (ctx.grow allocated).queue_size := by
      rw [grow_of hgrows]
      exact hshape.pending.trans_lt hlt
    exact hgrown.put (hshape.grow hgrows (.inl hzero)) hrunning' hroom task

theorem Holds.grab (h : ctx.Holds tasks) (hshape : ctx.Shape) (hpending : ctx.pending_count ≠ 0) :
    ∃ task rest, tasks = task :: rest ∧ ctx.grab.2 = some task ∧ ctx.grab.1.Holds rest := by
  cases tasks with
  | nil => exact absurd h.pending_count hpending
  | cons task rest =>
      have hget := h.queue.head
      have htail := h.queue.tail.mod_start
      rw [hshape.length, Nat.mod_eq_of_lt hshape.head] at hget
      rw [hshape.length] at htail
      refine ⟨task, rest, rfl, by rw [IjkThreadPoolContext.grab, hget]; rfl, ?_, htail⟩
      change ctx.pending_count - 1 = rest.length
      rw [h.pending_count, List.length_cons, Nat.add_sub_cancel]

theorem Shape.grab (h : ctx.Shape) (hpending : ctx.pending_count ≠ 0) : ctx.grab.1.Shape := by
  have hlt := h.head
  refine ⟨h.length, Nat.mod_lt _ (by omega), h.size, (Nat.sub_le _ _).trans h.pending, fun hrunning => ?_⟩
  change ctx.queue_tail = ((ctx.queue_head + 1) % ctx.queue_size + (ctx.pending_count - 1)) % ctx.queue_size
  rw [h.tail hrunning, Nat.mod_add_mod, Nat.add_assoc, Nat.add_sub_cancel' (Nat.pos_of_ne_zero hpending)]

end IjkThreadPoolContext

namespace ThreadPool

variable {s s' : ThreadPool τ}

/-- The threads have taken the tasks in the order in which they were added, and the others are pending. -/
def Intact (s : ThreadPool τ) : Prop :=
  ∃ tasks : List τ, s.accepted.map some = s.grabbed ++ tasks.map some ∧ s.ctx.Holds tasks

/-- When the queue grows its head is at the begin of the memory. -/
def GrowsAtStart (s : ThreadPool τ) : Event τ → Prop
  | .add (some _) allocated =>
      s.ctx.Grows allocated → s.ctx.queue_head = 0 ∨ s.ctx.queue_head = 1 ∧ s.ctx.shutdown ≠ .RUNNING
  | _ => True

theorem shutdown_grow (ctx : IjkThreadPoolContext τ) (allocated : Bool) :
    (ctx.grow allocated).shutdown = ctx.shutdown := by
  rw [IjkThreadPoolContext.grow]
  split
  · rfl
  · rfl

theorem add_cases {ctx : IjkThreadPoolContext τ} (hshape : ctx.Shape) (task : τ) (allocated : Bool) :
    (ctx.ijk_threadpool_add (some task) allocated = (ctx, IJK_THREADPOOL_QUEUE_FULL) ∧ ¬ctx.Grows allocated) ∨
      (ctx.shutdown ≠ .RUNNING ∧
        ctx.ijk_threadpool_add (some task) allocated = (ctx.grow allocated, IJK_THREADPOOL_SHUTDOWN)) ∨
      (ctx.shutdown = .RUNNING ∧ ctx.pending_count < ctx.queue_size ∧
        ctx.ijk_threadpool_add (some task) allocated = ((ctx.grow allocated).put task, 0)) := by
  have hpending := hshape.pending
  have hsize := hshape.size
  simp only [IjkThreadPoolContext.ijk_threadpool_add]
  split
  case isTrue hfull =>
      exact .inl ⟨rfl, fun hgrows => by have := hgrows.1; omega⟩
  case isFalse hfull =>
      rw [shutdown_grow]
      by_cases hrunning : ctx.shutdown = .RUNNING
      · rw [if_neg fun hne => hne hrunning]
        exact .inr (.inr ⟨hrunning, by omega, rfl⟩)
      · rw [if_pos hrunning]
        exact .inr (.inl ⟨hrunning, rfl⟩)

theorem intact_iff {tasks : List τ} (h : s.accepted.map some = s.grabbed ++ tasks.map some) :
    s.Intact ↔ s.ctx.Holds tasks := by
  constructor
  · rintro ⟨tasks', h', hholds⟩
    have hmap := List.append_cancel_left (h.symm.trans h')
    rwa [List.map_injective_iff.mpr (fun _ _ => Option.some.inj) hmap]
  · exact fun hholds => ⟨tasks, h, hholds⟩

/-- A call of `ijk_threadpool_add` leaves the tasks in order exactly where it does not grow a queue whose tasks go on at
the begin of the memory. -/
theorem add_iff (hshape : s.ctx.Shape) (hintact : s.Intact) (task : Option τ) (allocated : Bool) :
    let r := s.ctx.ijk_threadpool_add task allocated
    (Intact { s with ctx := r.1, accepted := s.accept task r.2 } ↔ s.GrowsAtStart (.add task allocated)) ∧
      (s.GrowsAtStart (.add task allocated) → r.1.Shape) := by
  obtain ⟨tasks, haccepted, hholds⟩ := hintact
  cases task with
  | none => exact ⟨iff_of_true ⟨tasks, haccepted, hholds⟩ trivial, fun _ => hshape⟩
  | some task =>
      have hmore : (s.accepted ++ [task]).map some = s.grabbed ++ (tasks ++ [task]).map some := by
        rw [List.map_append, List.map_append, haccepted, List.append_assoc]
      intro r
      rcases add_cases hshape task allocated with ⟨hadd, hnot⟩ | ⟨hshut, hadd⟩ | ⟨hrunning, hlt, hadd⟩
      · simp only [r, hadd]
        exact ⟨iff_of_true ⟨tasks, haccepted, hholds⟩ fun hgrows => absurd hgrows hnot, fun _ => hshape⟩
      · simp only [r, hadd]
        by_cases hgrows : s.ctx.Grows allocated
        · have hiff := hholds.grow_iff hshape hgrows
          have hintact : Intact { s with ctx := s.ctx.grow allocated } ↔ (s.ctx.grow allocated).Holds tasks :=
            intact_iff haccepted
          refine ⟨hintact.trans (hiff.trans ⟨fun hle _ => ?_, fun h => ?_⟩),
            fun _ => hshape.grow hgrows (.inr hshut)⟩
          · rcases Nat.le_one_iff_eq_zero_or_eq_one.mp hle with hzero | hone
            · exact .inl hzero
            · exact .inr ⟨hone, hshut⟩
          · rcases h hgrows with hzero | ⟨hone, -⟩
            · omega
            · omega
        · rw [IjkThreadPoolContext.grow_of_not hshape.size hgrows]
          exact ⟨iff_of_true ⟨tasks, haccepted, hholds⟩ fun h => absurd h hgrows, fun _ => hshape⟩
      · simp only [r, hadd]
        by_cases hgrows : s.ctx.Grows allocated
        · have hiff := hholds.put_grow_iff hshape hrunning hgrows task
          have hzero : s.GrowsAtStart (.add (some task) allocated) ↔ s.ctx.queue_head = 0 :=
            ⟨fun h => (h hgrows).resolve_right fun h => h.2 hrunning, fun h _ => .inl h⟩
          have hintact : Intact { s with
                ctx := (s.ctx.grow allocated).put task
                accepted := s.accepted ++ [task] } ↔ ((s.ctx.grow allocated).put task).Holds (tasks ++ [task]) :=
            intact_iff hmore
          refine ⟨hintact.trans (hiff.trans hzero.symm), fun h => ?_⟩
          have hgrown := hshape.grow hgrows (.inl (hzero.mp h))
          refine hgrown.put ((shutdown_grow _ _).trans hrunning) ?_ task
          rw [IjkThreadPoolContext.grow_of hgrows]
          exact hshape.pending.trans_lt (IjkThreadPoolContext.lt_growsTo hgrows).1
        · rw [IjkThreadPoolContext.grow_of_not hshape.size hgrows]
          exact ⟨iff_of_true ⟨tasks ++ [task], hmore, hholds.put hshape hrunning hlt task⟩ fun h => absurd h hgrows,
            fun _ => hshape.put hrunning hlt task⟩

/-- Where a thread takes a task there is one. -/
theorem pending_ne_zero {ctx : IjkThreadPoolContext τ} (hw : ¬ctx.Waits) (hl : ¬ctx.Leaves) :
    ctx.pending_count ≠ 0 := by
  intro hzero
  cases hshut : ctx.shutdown with
  | RUNNING => exact hw ⟨hzero, hshut⟩
  | IJK_IMMEDIATE_SHUTDOWN => exact hl (.inl hshut)
  | IJK_LEISURELY_SHUTDOWN => exact hl (.inr ⟨hshut, hzero⟩)

/-- What a step of a thread can do: end its task, wait, leave or take a task. -/
theorem work_cases {i : ℕ} (hstep : s.workStep i = some s') :
    (∃ task, s.threads[i]? = some (.runs task) ∧ s' = { s with threads := s.threads.set i .ready }) ∨
      s.threads[i]? = some .ready ∧ s.locked = false ∧
        (s.ctx.Waits ∧ s' = s ∨
          s.ctx.Leaves ∧ s' = { s with
            ctx := { s.ctx with started_count := s.ctx.started_count - 1 }
            threads := s.threads.set i .exited } ∨
          s.ctx.pending_count ≠ 0 ∧ s' = { s with
            ctx := s.ctx.grab.1
            threads := s.threads.set i (.runs s.ctx.grab.2)
            grabbed := s.grabbed ++ [s.ctx.grab.2] }) := by
  rw [workStep] at hstep
  split at hstep
  case h_1 task hthread =>
      cases hstep
      exact .inl ⟨task, hthread, rfl⟩
  case h_2 hthread =>
      split at hstep
      case isTrue => cases hstep
      case isFalse hunlocked =>
          refine .inr ⟨hthread, Bool.not_eq_true _ ▸ hunlocked, ?_⟩
          split at hstep
          case isTrue hwaits =>
              cases hstep
              exact .inl ⟨hwaits, rfl⟩
          case isFalse hwaits =>
              split at hstep
              case isTrue hleaves =>
                  cases hstep
                  exact .inr (.inl ⟨hleaves, rfl⟩)
              case isFalse hleaves =>
                  cases hstep
                  exact .inr (.inr ⟨pending_ne_zero hwaits hleaves, rfl⟩)
  case h_3 => cases hstep

theorem work_keeps (hshape : s.ctx.Shape) (hintact : s.Intact) {i : ℕ} (hstep : s.workStep i = some s') :
    s'.ctx.Shape ∧ s'.Intact := by
  obtain ⟨tasks, haccepted, hholds⟩ := hintact
  rcases work_cases hstep with ⟨task, _, rfl⟩ | ⟨_, _, ⟨_, rfl⟩ | ⟨_, rfl⟩ | ⟨hpending, rfl⟩⟩
  · exact ⟨hshape, tasks, haccepted, hholds⟩
  · exact ⟨hshape, tasks, haccepted, hholds⟩
  · exact ⟨⟨hshape.length, hshape.head, hshape.size, hshape.pending, hshape.tail⟩, tasks, haccepted,
      hholds.pending_count, hholds.queue⟩
  · obtain ⟨task, rest, rfl, htask, hrest⟩ := hholds.grab hshape hpending
    refine ⟨hshape.grab hpending, rest, ?_, hrest⟩
    rw [htask, haccepted, List.map_cons, List.append_assoc]
    rfl

theorem step_iff {e : Event τ} (hshape : s.ctx.Shape) (hintact : s.Intact) (hstep : s.step e = some s') :
    (s'.Intact ↔ s.GrowsAtStart e) ∧ (s'.Intact → s'.ctx.Shape) := by
  simp only [step] at hstep
  split at hstep
  · cases hstep
  · cases e with
    | add task allocated =>
        simp only at hstep
        split at hstep
        · cases hstep
        · cases hstep
          obtain ⟨hiff, hkept⟩ := add_iff hshape hintact task allocated
          exact ⟨hiff, fun h => hkept (hiff.mp h)⟩
    | work i =>
        obtain ⟨hshape', hintact'⟩ := work_keeps hshape hintact hstep
        exact ⟨iff_of_true hintact' trivial, fun _ => hshape'⟩
    | destroy flags =>
        obtain ⟨tasks, haccepted, hholds⟩ := hintact
        simp only [destroyStep] at hstep
        split at hstep
        · cases hstep
        · split at hstep
          · cases hstep
            exact ⟨iff_of_true ⟨tasks, haccepted, hholds⟩ trivial, fun _ => hshape⟩
          · cases hstep
            have hrunning : s.ctx.shutdown = .RUNNING := not_not.mp ‹¬s.ctx.shutdown ≠ .RUNNING›
            exact ⟨iff_of_true ⟨tasks, haccepted, hholds.pending_count, hholds.queue⟩ trivial, fun _ =>
              ⟨hshape.length, hshape.head, hshape.size, hshape.pending, fun _ => hshape.tail hrunning⟩⟩
    | join =>
        simp only at hstep
        split at hstep
        · cases hstep
          exact ⟨iff_of_true hintact trivial, fun _ => hshape⟩
        · cases hstep

theorem created {threads queue_size : ℕ} (h : ijk_threadpool_create threads queue_size = some s) :
    s.ctx.Shape ∧ s.Intact := by
  rw [ijk_threadpool_create] at h
  split at h
  · cases h
  · cases h
    have hsize : 0 < queue_size ∧ queue_size ≤ MAX_QUEUE := by omega
    exact ⟨⟨List.length_replicate, hsize.1, hsize.2, Nat.zero_le _, fun _ => (Nat.zero_mod _).symm⟩, [], rfl, rfl, .nil⟩

/-- The threads take all tasks that are added, in their order, exactly in the runs in which the queue grows only while
its head is at the begin of the memory. -/
theorem tasks_intact_iff {threads queue_size : ℕ} (h : ijk_threadpool_create threads queue_size = some s)
    (events : List (Event τ)) : Always step Intact s events ↔ Each step GrowsAtStart s events :=
  always_iff_each_within (A := fun _ => True) (I := fun s => s.ctx.Shape)
    (fun _ _ _ _ hshape hintact hstep => (step_iff hshape hintact hstep).2)
    (fun _ _ _ _ hshape hintact hstep => (step_iff hshape hintact hstep).1) (fun _ _ => trivial) (created h).1
    (created h).2

/-- With one thread, two slots and a task that has been done already, the third task is lost. -/
theorem tasks_intact_iff_grown : ∃ s : ThreadPool ℕ, ijk_threadpool_create 1 2 = some s ∧
    ¬Always step Intact s [.add (some 5) true, .work 0, .add (some 6) true, .add (some 7) true] := by
  refine ⟨_, rfl, fun halways => ?_⟩
  have hadd := (tasks_intact_iff (show ijk_threadpool_create 1 2 = some _ from rfl) _).mp halways
  have hwork := (hadd _ rfl).2
  have hadd' := (hwork _ rfl).2
  have hgrows := ((hadd' _ rfl).2 _ rfl).1
  exact absurd (hgrows ⟨rfl, rfl, by decide⟩) (by decide)

/-! ## The end of the pool -/

/-- What a thread has still to do after a shutdown. -/
def PoolThread.rank : PoolThread τ → ℕ
  | .ready => 1
  | .runs _ => 2
  | .exited => 0

def PoolThread.running : PoolThread τ → ℕ
  | .exited => 0
  | _ => 1

def total (s : ThreadPool τ) (f : PoolThread τ → ℕ) : ℕ := (s.threads.map f).sum

theorem sum_set (f : PoolThread τ → ℕ) {threads : List (PoolThread τ)} {i : ℕ} {old : PoolThread τ}
    (h : threads[i]? = some old) (new : PoolThread τ) :
    ((threads.set i new).map f).sum + f old = (threads.map f).sum + f new := by
  induction threads generalizing i with
  | nil => cases h
  | cons thread rest ih =>
      cases i with
      | zero =>
          cases h
          simp only [List.set_cons_zero, List.map_cons, List.sum_cons]
          omega
      | succ i =>
          have hrest := ih h
          simp only [List.set_cons_succ, List.map_cons, List.sum_cons]
          omega

/-- `left` is about a thread that has exited, and `freed` about a pool all of whose threads have been joined. -/
structure Ends (s : ThreadPool τ) : Prop where
  started : s.ctx.started_count = s.total PoolThread.running
  pending : s.grabbed.length + s.ctx.pending_count = s.accepted.length
  left : .exited ∈ s.threads →
    s.ctx.shutdown ≠ .RUNNING ∧ (s.ctx.shutdown = .IJK_LEISURELY_SHUTDOWN → s.ctx.pending_count = 0)
  freed : ∀ ret, s.result = some ret → ret = 0 ∧ s.AllExited

theorem allExited_iff : s.AllExited ↔ s.total PoolThread.running = 0 := by
  rw [total, List.sum_eq_zero_iff_forall_eq_nat, List.forall_mem_map]
  refine forall_congr' fun thread => forall_congr' fun _ => ?_
  cases thread with
  | ready => exact iff_of_false nofun nofun
  | runs task => exact iff_of_false nofun nofun
  | exited => exact iff_of_true rfl rfl

theorem Ends.work (h : s.Ends) (hresult : s.result ≠ some 0) {i : ℕ} (hstep : s.workStep i = some s') : s'.Ends := by
  have hfreed : ∀ ret, s.result = some ret → ret = 0 ∧ False := by
    intro ret hret
    exact absurd ((h.freed ret hret).1 ▸ hret) hresult
  rcases work_cases hstep with ⟨task, hthread, rfl⟩ | ⟨hthread, _, ⟨_, rfl⟩ | ⟨hleaves, rfl⟩ | ⟨hpending, rfl⟩⟩
  · have hset := sum_set PoolThread.running hthread .ready
    refine ⟨h.started.trans (Nat.add_right_cancel hset.symm), h.pending, fun hleft => ?_,
      fun ret hret => (hfreed ret hret).2.elim⟩
    exact h.left ((List.mem_or_eq_of_mem_set hleft).resolve_right nofun)
  · exact h
  · have hset := sum_set PoolThread.running hthread .exited
    refine ⟨?_, h.pending, fun _ => ?_, fun ret hret => (hfreed ret hret).2.elim⟩
    · change s.ctx.started_count - 1 = _
      rw [h.started]
      exact Nat.sub_eq_of_eq_add hset.symm
    · rcases hleaves with himmediate | ⟨hleisurely, hzero⟩
      · exact ⟨by rw [himmediate]; nofun, fun hlei => by rw [himmediate] at hlei; cases hlei⟩
      · exact ⟨by rw [hleisurely]; nofun, fun _ => hzero⟩
  · have hset := sum_set PoolThread.running hthread (.runs s.ctx.grab.2)
    have hcount := h.pending
    refine ⟨h.started.trans (Nat.add_right_cancel hset.symm), ?_, fun hleft => ?_,
      fun ret hret => (hfreed ret hret).2.elim⟩
    · rw [List.length_append, List.length_singleton]
      change s.grabbed.length + 1 + (s.ctx.pending_count - 1) = s.accepted.length
      omega
    · obtain ⟨hne, hzero⟩ := h.left ((List.mem_or_eq_of_mem_set hleft).resolve_right nofun)
      exact ⟨hne, fun hlei => absurd (hzero hlei) hpending⟩

theorem add_counts (ctx : IjkThreadPoolContext τ) (task : Option τ) (allocated : Bool) :
    let r := ctx.ijk_threadpool_add task allocated
    r.1.shutdown = ctx.shutdown ∧ r.1.started_count = ctx.started_count ∧
      ((r.2 = 0 ∧ ctx.shutdown = .RUNNING ∧ ∃ t, task = some t ∧ r.1.pending_count = ctx.pending_count + 1) ∨
        r.2 ≠ 0 ∧ r.1.pending_count = ctx.pending_count) := by
  have hgrow : (ctx.grow allocated).shutdown = ctx.shutdown ∧ (ctx.grow allocated).started_count = ctx.started_count ∧
      (ctx.grow allocated).pending_count = ctx.pending_count := by
    rw [IjkThreadPoolContext.grow]
    split
    · exact ⟨rfl, rfl, rfl⟩
    · exact ⟨rfl, rfl, rfl⟩
  obtain ⟨hshutdown, hstarted, hpending⟩ := hgrow
  cases task with
  | none => exact ⟨rfl, rfl, .inr ⟨show IJK_THREADPOOL_INVALID ≠ 0 by decide, rfl⟩⟩
  | some task =>
      simp only [IjkThreadPoolContext.ijk_threadpool_add]
      split
      · exact ⟨rfl, rfl, .inr ⟨show IJK_THREADPOOL_QUEUE_FULL ≠ 0 by decide, rfl⟩⟩
      · rw [hshutdown]
        split
        case isTrue hshut => exact ⟨hshutdown, hstarted, .inr ⟨show IJK_THREADPOOL_SHUTDOWN ≠ 0 by decide, hpending⟩⟩
        case isFalse hshut =>
            exact ⟨hshutdown, hstarted, .inl ⟨rfl, not_not.mp hshut, task, rfl, congrArg (· + 1) hpending⟩⟩

theorem Ends.add (h : s.Ends) (task : Option τ) (allocated : Bool) :
    Ends { s with
      ctx := (s.ctx.ijk_threadpool_add task allocated).1
      accepted := s.accept task (s.ctx.ijk_threadpool_add task allocated).2 } := by
  obtain ⟨hshutdown, hstarted, hcases⟩ := add_counts s.ctx task allocated
  refine ⟨hstarted.trans h.started, ?_, fun hleft => ?_, h.freed⟩
  · have hcount := h.pending
    rcases hcases with ⟨hret, _, t, rfl, hpending⟩ | ⟨hret, hpending⟩
    · simp only [accept, hret, hpending, if_true, List.length_append, Option.toList_some, List.length_singleton]
      omega
    · simp only [accept, hret, hpending, if_false]
      exact hcount
  · obtain ⟨hne, hzero⟩ := h.left hleft
    refine ⟨fun hrunning => hne (hshutdown.symm.trans hrunning), fun hlei => ?_⟩
    rcases hcases with ⟨_, hrunning, _⟩ | ⟨_, hpending⟩
    · exact absurd hrunning hne
    · exact hpending.trans (hzero (hshutdown.symm.trans hlei))

theorem Ends.step (h : s.Ends) {e : Event τ} (hstep : s.step e = some s') : s'.Ends := by
  simp only [ThreadPool.step] at hstep
  split at hstep
  · cases hstep
  · cases e with
    | add task allocated =>
        simp only at hstep
        split at hstep
        · cases hstep
        · cases hstep
          exact h.add task allocated
    | work i => exact h.work ‹_› hstep
    | destroy flags =>
        simp only [destroyStep] at hstep
        split at hstep
        · cases hstep
        · split at hstep
          · cases hstep
            exact ⟨h.started, h.pending, h.left, h.freed⟩
          · cases hstep
            have hrunning : s.ctx.shutdown = .RUNNING := not_not.mp ‹¬s.ctx.shutdown ≠ .RUNNING›
            exact ⟨h.started, h.pending, fun hleft => absurd hrunning (h.left hleft).1, h.freed⟩
    | join =>
        simp only at hstep
        split at hstep
        case isTrue hjoin =>
            cases hstep
            refine ⟨h.started, h.pending, h.left, fun ret hret => ?_⟩
            have hzero : s.ctx.started_count = 0 := h.started.trans (allExited_iff.mp hjoin.2.1)
            refine ⟨?_, hjoin.2.1⟩
            rw [← Option.some.inj hret, IjkThreadPoolContext.ijk_threadpool_free, hzero]
            rfl
        case isFalse => cases hstep

theorem Ends.created (threads queue_size : ℕ) (joining : Bool) :
    Ends (τ := τ) ⟨.create threads queue_size, List.replicate threads .ready, false, joining, none, [], []⟩ := by
  refine ⟨?_, rfl, fun hleft => ?_, nofun⟩
  · rw [total, List.map_replicate, List.sum_replicate_nat]
    exact (Nat.mul_one threads).symm
  · cases List.eq_of_mem_replicate hleft

theorem length_step {e : Event τ} (hstep : s.step e = some s') : s'.threads.length = s.threads.length := by
  simp only [step] at hstep
  split at hstep
  · cases hstep
  · cases e with
    | add task allocated =>
        simp only at hstep
        split at hstep
        · cases hstep
        · cases hstep
          rfl
    | work i =>
        rcases work_cases hstep with ⟨task, _, rfl⟩ | ⟨_, _, ⟨_, rfl⟩ | ⟨_, rfl⟩ | ⟨_, rfl⟩⟩
        · exact List.length_set
        · rfl
        · exact List.length_set
        · exact List.length_set
    | destroy flags =>
        simp only [destroyStep] at hstep
        split at hstep
        · cases hstep
        · split at hstep
          · cases hstep
            rfl
          · cases hstep
            rfl
    | join =>
        simp only at hstep
        split at hstep
        · cases hstep
          rfl
        · cases hstep

theorem exited_mem (h : s.AllExited) (hne : s.threads ≠ []) : .exited ∈ s.threads := by
  obtain ⟨thread, hmem⟩ := List.exists_mem_of_ne_nil _ hne
  have hthread := h thread hmem
  cases thread with
  | exited => exact hmem
  | ready => cases hthread
  | runs task => cases hthread

/-- A pool is freed only after its last thread has left. After a leisurely shutdown all tasks have been taken. -/
theorem destroyed {threads queue_size : ℕ} (h : ijk_threadpool_create threads queue_size = some s)
    {events : List (Event τ)} (hrun : run step s events = some s') {ret : ℤ} (hret : s'.result = some ret) :
    ret = 0 ∧ s'.AllExited ∧ (s'.ctx.shutdown = .IJK_LEISURELY_SHUTDOWN →
      s'.grabbed.length = s'.accepted.length ∧
        (Each step GrowsAtStart s events → s'.grabbed = s'.accepted.map some)) := by
  have hstart : s.Ends ∧ s.threads ≠ [] := by
    rw [ijk_threadpool_create] at h
    split at h
    · cases h
    case isFalse hargs =>
        cases h
        exact ⟨.created threads queue_size false, fun hnil => hargs (.inl ((List.replicate_eq_nil_iff _).mp hnil))⟩
  obtain ⟨hends, hne⟩ : s'.Ends ∧ s'.threads ≠ [] :=
    run_keeps (I := fun s => s.Ends ∧ s.threads ≠ []) (fun t e t' ht hstep =>
      ⟨ht.1.step hstep, List.ne_nil_of_length_pos
        ((length_step hstep).symm ▸ List.length_pos_of_ne_nil ht.2)⟩) hstart hrun
  obtain ⟨hzero, hexited⟩ := hends.freed ret hret
  refine ⟨hzero, hexited, fun hlei => ?_⟩
  have hpending := (hends.left (exited_mem hexited hne)).2 hlei
  have hcount := hends.pending
  refine ⟨by omega, fun heach => ?_⟩
  have halways := always_iff.mp ((tasks_intact_iff h events).mpr heach)
  obtain ⟨tasks, haccepted, hholds⟩ := halways events s' List.prefix_rfl hrun
  have hnil : tasks = [] := List.eq_nil_of_length_eq_zero (hholds.pending_count.symm.trans hpending)
  rw [hnil, List.map_nil, List.append_nil] at haccepted
  exact haccepted.symm

theorem destroyed_leisurely : ∃ s s' : ThreadPool ℕ, ijk_threadpool_create 1 1 = some s ∧
    run step s [.add (some 5) true, .destroy .IJK_LEISURELY_SHUTDOWN, .work 0, .work 0, .work 0, .join] = some s' ∧
      s'.grabbed.length = s'.accepted.length := by
  have hcreate : ijk_threadpool_create 1 1 =
      some (⟨.create 1 1, [.ready], false, false, none, [], []⟩ : ThreadPool ℕ) := rfl
  refine ⟨_, _, hcreate, rfl, ?_⟩
  exact ((destroyed hcreate (show run step _ [.add (some 5) true, .destroy .IJK_LEISURELY_SHUTDOWN, .work 0, .work 0,
    .work 0, .join] = some _ from rfl) rfl).2.2 rfl).1

/-! ## The return of `ijk_threadpool_destroy` -/

def remaining (s : ThreadPool τ) : ℕ := 2 * s.ctx.pending_count + s.total PoolThread.rank

/-- After a shutdown each step of a thread makes less of what remains. -/
theorem work_remaining {i : ℕ} (hstep : s.workStep i = some s') :
    s'.ctx.shutdown = s.ctx.shutdown ∧ s'.locked = s.locked ∧
      (s.ctx.shutdown ≠ .RUNNING → s'.remaining < s.remaining) := by
  rcases work_cases hstep with ⟨task, hthread, rfl⟩ | ⟨hthread, _, ⟨hwaits, rfl⟩ | ⟨_, rfl⟩ | ⟨hpending, rfl⟩⟩
  · have hset := sum_set PoolThread.rank hthread .ready
    exact ⟨rfl, rfl, fun _ => Nat.add_lt_add_left (Nat.lt_of_succ_lt_succ hset.le) _⟩
  · exact ⟨rfl, rfl, fun hne => absurd hwaits.2 hne⟩
  · have hset := sum_set PoolThread.rank hthread .exited
    exact ⟨rfl, rfl, fun _ => Nat.add_lt_add_left hset.le _⟩
  · have hset := sum_set PoolThread.rank hthread (.runs s.ctx.grab.2)
    refine ⟨rfl, rfl, fun _ => ?_⟩
    change 2 * (s.ctx.pending_count - 1) + ((s.threads.set i _).map PoolThread.rank).sum <
      2 * s.ctx.pending_count + (s.threads.map PoolThread.rank).sum
    change ((s.threads.set i _).map PoolThread.rank).sum + 1 = _ + 2 at hset
    omega

theorem exists_work (hresult : s.result ≠ some 0) (hunlocked : s.locked = false) (hshutdown : s.ctx.shutdown ≠ .RUNNING)
    (hexited : ¬s.AllExited) : ∃ i s', s.step (.work i) = some s' := by
  simp only [AllExited, not_forall] at hexited
  obtain ⟨thread, hmem, hthread⟩ := hexited
  obtain ⟨i, hi⟩ := List.getElem?_of_mem hmem
  have hlocked : ¬s.locked = true := by rw [hunlocked]; nofun
  have hwaits : ¬s.ctx.Waits := fun hwaits => hshutdown hwaits.2
  refine ⟨i, ?_⟩
  simp only [step, if_neg hresult, workStep, hi]
  cases thread with
  | exited => exact absurd rfl hthread
  | runs task => exact ⟨_, rfl⟩
  | ready =>
      simp only [if_neg hlocked, if_neg hwaits]
      split
      · exact ⟨_, rfl⟩
      · exact ⟨_, rfl⟩

theorem ends_of_run {threads queue_size : ℕ} {s₀ : ThreadPool τ}
    (h : ijk_threadpool_create threads queue_size = some s₀ ∨ s₀ = createFailed threads queue_size)
    {events : List (Event τ)} (hrun : run step s₀ events = some s) : s.Ends := by
  refine run_keeps (fun _ _ _ hends hstep => Ends.step hends hstep) ?_ hrun
  rcases h with h | rfl
  · rw [ijk_threadpool_create] at h
    split at h
    · cases h
    · cases h
      exact .created threads queue_size false
  · exact .created threads queue_size true

theorem step_work (hresult : s.result ≠ some 0) (i : ℕ) : s.step (.work i) = s.workStep i := if_neg hresult

theorem workStep_of_step {i : ℕ} (hstep : s.step (.work i) = some s') : s.workStep i = some s' := by
  by_cases hresult : s.result = some 0
  · simp only [step, if_pos hresult] at hstep
    cases hstep
  · rwa [step_work hresult] at hstep

theorem not_exited_of_running {events : List (Event τ)} (hevents : ∀ e ∈ events, e ∈ Set.range Event.work)
    (h : s.Ends ∧ s.ctx.shutdown = .RUNNING ∧ s.threads ≠ []) (hrun : run step s events = some s') :
    ¬s'.AllExited := by
  intro hexited
  obtain ⟨hends, hrunning, hne⟩ := run_invariant
    (I := fun s : ThreadPool τ => s.Ends ∧ s.ctx.shutdown = .RUNNING ∧ s.threads ≠ []) (fun t e t' he ht hstep => by
      obtain ⟨i, rfl⟩ := he
      obtain ⟨hends, hrunning, hne⟩ := ht
      have hlength := length_step hstep
      refine ⟨hends.step hstep, (work_remaining (workStep_of_step hstep)).1.trans hrunning, ?_⟩
      exact List.ne_nil_of_length_pos (hlength ▸ List.length_pos_of_ne_nil hne)) hevents h hrun
  exact (hends.left (exited_mem hexited hne)).1 hrunning

/-- A pool that is freed is not joined any more. -/
theorem joining_of_run {threads queue_size : ℕ} {s₀ : ThreadPool τ}
    (h : ijk_threadpool_create threads queue_size = some s₀ ∨ s₀ = createFailed threads queue_size)
    {events : List (Event τ)} (hrun : run step s₀ events = some s) (hjoining : s.joining = true) :
    s.result ≠ some 0 := by
  refine run_keeps (I := fun s : ThreadPool τ => s.joining = true → s.result ≠ some 0)
    (fun t e t' _ hstep => ?_) ?_ hrun
    hjoining
  · simp only [step] at hstep
    split at hstep
    case isTrue => cases hstep
    case isFalse hresult =>
        cases e with
        | add task allocated =>
            simp only at hstep
            split at hstep
            · cases hstep
            · cases hstep
              exact fun _ => hresult
        | work i =>
            rcases work_cases hstep with ⟨task, _, rfl⟩ | ⟨_, _, ⟨_, rfl⟩ | ⟨_, rfl⟩ | ⟨_, rfl⟩⟩
            · exact fun _ => hresult
            · exact fun _ => hresult
            · exact fun _ => hresult
            · exact fun _ => hresult
        | destroy flags =>
            simp only [destroyStep] at hstep
            split at hstep
            · cases hstep
            · split at hstep
              · cases hstep
                exact fun _ => hresult
              · cases hstep
                exact fun _ => hresult
        | join =>
            simp only at hstep
            split at hstep
            · cases hstep
              exact fun hjoining => absurd hjoining Bool.false_ne_true
            · cases hstep
  · rcases h with h | rfl
    · rw [ijk_threadpool_create] at h
      split at h
      · cases h
      · cases h
        exact fun _ => (Option.some_ne_none 0).symm
    · exact fun _ => (Option.some_ne_none 0).symm

theorem work_joining {i : ℕ} (hstep : s.workStep i = some s') : s'.joining = s.joining := by
  rcases work_cases hstep with ⟨task, _, rfl⟩ | ⟨_, _, ⟨_, rfl⟩ | ⟨_, rfl⟩ | ⟨_, rfl⟩⟩
  · rfl
  · rfl
  · rfl
  · rfl

theorem locked_of_work {events : List (Event τ)} (hevents : ∀ e ∈ events, e ∈ Set.range Event.work)
    (hrun : run step s events = some s') : s'.locked = s.locked :=
  run_invariant (I := fun t : ThreadPool τ => t.locked = s.locked) (fun t e t' he ht hstep => by
    obtain ⟨i, rfl⟩ := he
    exact (work_remaining (workStep_of_step hstep)).2.1.trans ht) hevents rfl hrun

/-- Where nobody keeps the lock and a shutdown was asked for, the threads can all leave. -/
theorem exists_exit (hends : s.Ends) (hjoining : s.joining = true) (hunlocked : s.locked = false)
    (hshutdown : s.ctx.shutdown ≠ .RUNNING) : ∃ is t, run step s ((is : List ℕ).map .work) = some t ∧ t.Ends ∧
      t.joining = true ∧ t.locked = false ∧ t.AllExited := by
  obtain ⟨es, t, hes, hrun, hexited⟩ := exists_run_to remaining (A := fun e => e ∈ Set.range Event.work)
    (I := fun s : ThreadPool τ => s.Ends ∧ s.joining = true ∧ s.locked = false ∧ s.ctx.shutdown ≠ .RUNNING)
    (P := fun t => t.Ends ∧ t.joining = true ∧ t.locked = false ∧ t.AllExited)
    (fun t e t' he ht (hstep : step t e = some t') => by
      obtain ⟨i, rfl⟩ := he
      obtain ⟨hends, hjoining, hunlocked, hshutdown⟩ := ht
      have hwork := workStep_of_step hstep
      obtain ⟨hkept, hlocked, hlt⟩ := work_remaining hwork
      exact ⟨⟨hends.step hstep, (work_joining hwork).trans hjoining, hlocked.trans hunlocked, hkept ▸ hshutdown⟩,
        hlt hshutdown⟩)
    (fun t ht hnot => by
      obtain ⟨hends, hjoining, hunlocked, hshutdown⟩ := ht
      have hexited : ¬t.AllExited := fun hexited => hnot ⟨hends, hjoining, hunlocked, hexited⟩
      have hresult : t.result ≠ some 0 := fun hzero => hexited (hends.freed 0 hzero).2
      obtain ⟨i, t', hstep⟩ := exists_work hresult hunlocked hshutdown hexited
      exact ⟨.work i, t', ⟨i, rfl⟩, hstep⟩) ⟨hends, hjoining, hunlocked, hshutdown⟩
  obtain ⟨is, rfl⟩ : es ∈ Set.range (List.map Event.work) := by
    rw [Set.range_list_map]
    exact hes
  exact ⟨is, t, hrun, hexited⟩

theorem step_join (hends : s.Ends) (hresult : s.result ≠ some 0) (hjoining : s.joining = true)
    (hunlocked : s.locked = false) (hexited : s.AllExited) : ∃ s', s.step .join = some s' ∧ s'.result = some 0 := by
  have hzero : s.ctx.started_count = 0 := hends.started.trans (allExited_iff.mp hexited)
  refine ⟨{ s with joining := false, result := some s.ctx.ijk_threadpool_free }, ?_, ?_⟩
  · simp only [step, if_neg hresult]
    exact if_pos ⟨hjoining, hexited, hunlocked⟩
  · change some s.ctx.ijk_threadpool_free = some 0
    rw [IjkThreadPoolContext.ijk_threadpool_free, hzero]
    rfl

theorem join_of_step (hstep : s.step .join = some s') : s.AllExited ∧ s.locked = false := by
  simp only [step] at hstep
  split at hstep
  · cases hstep
  · split at hstep
    case isTrue hjoin => exact hjoin.2
    case isFalse => cases hstep

/-- The `ijk_threadpool_destroy` that joins the threads can return exactly when no second call has kept the lock, and
the threads have left or a shutdown of one of the two kinds was asked for: not after the flags 0 of a failed
`ijk_threadpool_create`. After such a shutdown every schedule of the threads comes to its end. -/
theorem destroy_returns_iff {threads queue_size : ℕ} {s₀ : ThreadPool τ}
    (h : ijk_threadpool_create threads queue_size = some s₀ ∨ s₀ = createFailed threads queue_size)
    {events : List (Event τ)} (hrun : run step s₀ events = some s) (hjoining : s.joining = true) :
    ((∃ is s', run step s ((is : List ℕ).map .work ++ [.join]) = some s' ∧ s'.result = some 0) ↔
      s.locked = false ∧ (s.AllExited ∨ s.ctx.shutdown ≠ .RUNNING)) ∧
    (s.ctx.shutdown ≠ .RUNNING →
      ∀ is s', run step s ((is : List ℕ).map .work) = some s' → is.length ≤ s.remaining) := by
  have hends := ends_of_run h hrun
  have hresult := joining_of_run h hrun hjoining
  have hwork : ∀ is : List ℕ, ∀ e ∈ is.map (Event.work (τ := τ)), e ∈ Set.range Event.work := by
    intro is e he
    obtain ⟨i, _, rfl⟩ := List.mem_map.mp he
    exact ⟨i, rfl⟩
  refine ⟨⟨?_, ?_⟩, ?_⟩
  · rintro ⟨is, s', hrun', -⟩
    obtain ⟨t, hworks, hjoin⟩ := run_append.mp hrun'
    obtain ⟨u, hstep, -⟩ := run_cons_eq_some.mp hjoin
    obtain ⟨hexited, hunlocked⟩ := join_of_step hstep
    refine ⟨(locked_of_work (hwork is) hworks).symm.trans hunlocked, ?_⟩
    by_contra hnot
    rw [not_or, not_not] at hnot
    have hne : s.threads ≠ [] := fun hnil => hnot.1 (by rw [AllExited, hnil]; nofun)
    exact not_exited_of_running (hwork is) ⟨hends, hnot.2, hne⟩ hworks hexited
  · rintro ⟨hunlocked, hexited | hshutdown⟩
    · obtain ⟨s', hstep, hzero⟩ := step_join hends hresult hjoining hunlocked hexited
      exact ⟨[], s', run_cons_eq_some.mpr ⟨s', hstep, rfl⟩, hzero⟩
    · obtain ⟨is, t, hworks, htends, htjoining, htunlocked, hexited⟩ := exists_exit hends hjoining hunlocked hshutdown
      have htresult : t.result ≠ some 0 := joining_of_run h (run_append.mpr ⟨s, hrun, hworks⟩) htjoining
      obtain ⟨s', hstep, hzero⟩ := step_join htends htresult htjoining htunlocked hexited
      exact ⟨is, s', run_append.mpr ⟨t, hworks, run_cons_eq_some.mpr ⟨s', hstep, rfl⟩⟩, hzero⟩
  · intro hshutdown is s' hrun'
    have hle := length_add_le remaining (A := fun e => e ∈ Set.range Event.work)
      (I := fun s => s.ctx.shutdown ≠ .RUNNING) (fun t e t' he ht hstep => by
        obtain ⟨i, rfl⟩ := he
        obtain ⟨hkept, _, hlt⟩ := work_remaining (workStep_of_step hstep)
        exact ⟨hkept ▸ ht, hlt ht⟩) (hwork is) hshutdown hrun'
    rw [List.length_map] at hle
    exact (Nat.le_add_right _ _).trans hle

theorem destroy_returns_iff_failed : ¬∃ is s', run step (createFailed 1 1 : ThreadPool ℕ)
    ((is : List ℕ).map .work ++ [.join]) = some s' ∧ s'.result = some 0 := by
  intro hreturns
  have hiff := (destroy_returns_iff (.inr rfl) (run_nil (createFailed 1 1 : ThreadPool ℕ)) rfl).1
  exact absurd (hiff.mp hreturns) (by decide)

end ThreadPool

end MyDemo.Ijkmedia
