import MyDemo.Lib.LinkedQueue
import Mathlib.Data.Int.Notation

/-!
# The message queue

`ff_ffmsg_queue.h`. Each function holds the lock from its begin to its end, so that the threads which use the queue
make a sequence of calls. `ω` is the type of the objects that messages point to. An assertion that fails, and a read
through a pointer that leads nowhere, have no result.
-/

namespace MyDemo.Ijkmedia

/-- `free_l` tells whether the function is set. -/
structure AVMessage (ω : Type*) where
  what : ℤ
  arg1 : ℤ
  arg2 : ℤ
  obj : Option ω
  free_l : Bool
  deriving DecidableEq, Repr

/-- `first_msg`, `last_msg` and `recycle_msg` are the pointers of `list`. -/
structure MessageQueue (ω : Type*) where
  list : Linked.Queue (AVMessage ω)
  nb_messages : ℤ
  abort_request : Bool
  recycle_count : ℕ
  alloc_count : ℕ
  deriving DecidableEq, Repr

def FFP_MSG_FLUSH : ℤ := 0

namespace AVMessage

variable {ω : Type*}

def msg_init_msg : AVMessage ω := ⟨0, 0, 0, none, false⟩

def dropObj (msg : AVMessage ω) : AVMessage ω := { msg with obj := none }

/-- The object that is freed. -/
def msg_free_res (msg : AVMessage ω) : Option (List ω) :=
  match msg.obj with
  | none => some []
  | some obj => if msg.free_l then some [obj] else none

/-- The same for each of the messages. -/
def freeAll : List (AVMessage ω) → Option (List ω)
  | [] => some []
  | msg :: msgs =>
      match msg.msg_free_res, freeAll msgs with
      | some o, some os => some (o ++ os)
      | _, _ => none

end AVMessage

/-- What `msg_queue_get` does before it gives up the lock. -/
inductive Got (ω : Type*) where
  | ret (ret : ℤ)
  | msg (msg : AVMessage ω)
  | wait
  deriving DecidableEq, Repr

namespace MessageQueue

variable {ω : Type*}

def msg_queue_init : MessageQueue ω := ⟨.empty, 0, true, 0, 0⟩

def countNode (q : MessageQueue ω) : MessageQueue ω :=
  if q.list.spare.isSome then { q with recycle_count := q.recycle_count + 1 }
  else { q with alloc_count := q.alloc_count + 1 }

def msg_queue_put_private (q : MessageQueue ω) (msg : AVMessage ω) (allocated : Bool) :
    Option (MessageQueue ω × ℤ) :=
  if q.abort_request then some (q, -1)
  else
    match q.list.put msg allocated with
    | none => none
    | some (list, false) => some ({ q.countNode with list := list }, -1)
    | some (list, true) => some ({ q.countNode with list := list, nb_messages := q.nb_messages + 1 }, 0)

def msg_queue_put_simple1 (q : MessageQueue ω) (what : ℤ) (allocated : Bool) : Option (MessageQueue ω × ℤ) :=
  q.msg_queue_put_private { AVMessage.msg_init_msg with what := what } allocated

def msg_queue_put_simple2 (q : MessageQueue ω) (what arg1 : ℤ) (allocated : Bool) : Option (MessageQueue ω × ℤ) :=
  q.msg_queue_put_private { AVMessage.msg_init_msg with what := what, arg1 := arg1 } allocated

def msg_queue_put_simple3 (q : MessageQueue ω) (what arg1 arg2 : ℤ) (allocated : Bool) :
    Option (MessageQueue ω × ℤ) :=
  q.msg_queue_put_private { AVMessage.msg_init_msg with what := what, arg1 := arg1, arg2 := arg2 } allocated

/-- `obj` is the copy of the object. -/
def msg_queue_put_simple4 (q : MessageQueue ω) (what arg1 arg2 : ℤ) (obj : ω) (allocated : Bool) :
    Option (MessageQueue ω × ℤ) :=
  q.msg_queue_put_private ⟨what, arg1, arg2, some obj, true⟩ allocated

/-- The objects stay with the nodes. -/
def msg_queue_flush (q : MessageQueue ω) : Option (MessageQueue ω) :=
  (q.list.flush id).map fun r => { q with list := r.1, nb_messages := 0 }

/-- The objects that are freed. The queue must not be used afterwards. -/
def msg_queue_destroy (q : MessageQueue ω) : Option (MessageQueue ω × List ω) :=
  match q.msg_queue_flush with
  | none => none
  | some q =>
      match q.list.free with
      | none => none
      | some (list, msgs) => (AVMessage.freeAll msgs).map fun objs => ({ q with list := list }, objs)

def msg_queue_abort (q : MessageQueue ω) : MessageQueue ω := { q with abort_request := true }

def msg_queue_start (q : MessageQueue ω) (allocated : Bool) : Option (MessageQueue ω × ℤ) :=
  msg_queue_put_private { q with abort_request := false }
    { AVMessage.msg_init_msg with what := FFP_MSG_FLUSH } allocated

/-- One pass of the loop. -/
def msg_queue_get (q : MessageQueue ω) (block : Bool) : Option (MessageQueue ω × Got ω) :=
  if q.abort_request then some (q, .ret (-1))
  else
    match q.list.pop AVMessage.dropObj with
    | none => none
    | some (list, some msg) => some ({ q with list := list, nb_messages := q.nb_messages - 1 }, .msg msg)
    | some (_, none) => some (q, if block then .wait else .ret 0)

/-- The objects that are freed. -/
def msg_queue_remove (q : MessageQueue ω) (what : ℤ) : Option (MessageQueue ω × List ω) :=
  if !q.abort_request && q.list.first.isSome then
    match q.list.remove AVMessage.dropObj fun msg => msg.what = what with
    | none => none
    | some (list, msgs) =>
        (AVMessage.freeAll msgs).map fun objs =>
          ({ q with list := list, nb_messages := q.nb_messages - msgs.length }, objs)
  else some (q, [])

/-! ## Calls -/

inductive Call (ω : Type*) where
  | msg_queue_put_simple1 (what : ℤ) (allocated : Bool)
  | msg_queue_put_simple2 (what arg1 : ℤ) (allocated : Bool)
  | msg_queue_put_simple3 (what arg1 arg2 : ℤ) (allocated : Bool)
  | msg_queue_put_simple4 (what arg1 arg2 : ℤ) (obj : ω) (allocated : Bool)
  | msg_queue_flush
  | msg_queue_abort
  | msg_queue_start (allocated : Bool)
  | msg_queue_get (block : Bool)
  | msg_queue_remove (what : ℤ)
  deriving DecidableEq, Repr

/-- What a call returns, and the objects that it frees. The functions that put a message come with what
`msg_queue_put_private` returns to them. -/
structure Outcome (ω : Type*) where
  got : Got ω
  freed : List ω
  deriving DecidableEq, Repr

def call (q : MessageQueue ω) : Call ω → Option (MessageQueue ω × Outcome ω)
  | .msg_queue_put_simple1 what allocated =>
      (q.msg_queue_put_simple1 what allocated).map fun r => (r.1, ⟨.ret r.2, []⟩)
  | .msg_queue_put_simple2 what arg1 allocated =>
      (q.msg_queue_put_simple2 what arg1 allocated).map fun r => (r.1, ⟨.ret r.2, []⟩)
  | .msg_queue_put_simple3 what arg1 arg2 allocated =>
      (q.msg_queue_put_simple3 what arg1 arg2 allocated).map fun r => (r.1, ⟨.ret r.2, []⟩)
  | .msg_queue_put_simple4 what arg1 arg2 obj allocated =>
      (q.msg_queue_put_simple4 what arg1 arg2 obj allocated).map fun r => (r.1, ⟨.ret r.2, []⟩)
  | .msg_queue_flush => q.msg_queue_flush.map fun q => (q, ⟨.ret 0, []⟩)
  | .msg_queue_abort => some (q.msg_queue_abort, ⟨.ret 0, []⟩)
  | .msg_queue_start allocated => (q.msg_queue_start allocated).map fun r => (r.1, ⟨.ret r.2, []⟩)
  | .msg_queue_get block => (q.msg_queue_get block).map fun r => (r.1, ⟨r.2, []⟩)
  | .msg_queue_remove what => (q.msg_queue_remove what).map fun r => (r.1, ⟨.ret 0, r.2⟩)

end MessageQueue

end MyDemo.Ijkmedia
