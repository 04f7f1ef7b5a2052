import MyDemo.Lib.Transition
import Mathlib.Algebra.Ring.Nat
import Mathlib.Data.Int.Notation

/-!
# The player

`IjkMediaPlayer` of `ijkplayer.c`. Its calls and the threads that run `ijkmp_get_msg` take turns under the mutex, and
`ffplay` puts messages into the queue at any time. The queue is the list of its messages, as the theorems about the
message queue say. Assertions are off, as in the build of the library.
-/

namespace MyDemo.Ijkmedia

inductive MPState where
  | IDLE
  | INITIALIZED
  | ASYNC_PREPARING
  | PREPARED
  | STARTED
  | PAUSED
  | COMPLETED
  | STOPPED
  | ERROR
  | END
  deriving DecidableEq, Repr

inductive PlayerWhat where
  | MSG_FLUSH
  | MSG_PREPARED
  | MSG_COMPLETED
  | MSG_SEEK_COMPLETE
  | MSG_PLAYBACK_STATE_CHANGED
  | REQ_START
  | REQ_PAUSE
  | REQ_SEEK
  /-- A message that `ijkmp_get_msg` only hands on. -/
  | other (what : ℤ)
  deriving DecidableEq, Repr

structure PlayerMessage where
  what : PlayerWhat
  arg1 : ℤ
  deriving DecidableEq, Repr

/-- A call of `ffplay` that a request has led to. -/
inductive FfpCall where
  | ffp_start_from_l (msec : ℤ)
  | ffp_start_l
  | ffp_pause_l
  | ffp_seek_to_l (msec : ℤ)
  deriving DecidableEq, Repr

def EIJK_INVALID_STATE : ℤ := -3

/-- `prepared` tells that `ffplay` has a stream, and `abort_request` is that of the message queue. There is one of the
`loops` for each `ijkmp_prepare_async`, with the message that `msg_queue_get` has returned to it. `calls` are the calls
of `ffplay` up to now, and `stopped` those up to the first stop. `sought` is the position of the last seek that was
accepted, until its end, and `requested` that of the last one that was accepted while the queue was open. -/
structure IjkMediaPlayer where
  mp_state : MPState
  restart : Bool
  restart_from_beginning : Bool
  seek_req : Bool
  seek_msec : ℤ
  start_on_prepared : Bool
  prepared : Bool
  msg_queue : List PlayerMessage
  abort_request : Bool
  loops : List (Option PlayerMessage)
  calls : List FfpCall
  stopped : Option (List FfpCall)
  sought : Option ℤ
  requested : Option ℤ
  deriving DecidableEq, Repr

namespace IjkMediaPlayer

def ijkmp_create (start_on_prepared : Bool) : IjkMediaPlayer :=
  ⟨.IDLE, false, false, false, 0, start_on_prepared, false, [], true, [], [], none, none, none⟩

/-- `(int) msec`, with the modulus `2 ^ 32`. -/
def toInt (msec : ℤ) : ℤ := msec.bmod 4294967296

def ffp_notify_msg (mp : IjkMediaPlayer) (what : PlayerWhat) (arg1 : ℤ) : IjkMediaPlayer :=
  if mp.abort_request then mp else { mp with msg_queue := mp.msg_queue ++ [⟨what, arg1⟩] }

/-- A queue that was aborted keeps its messages. -/
def ffp_remove_msg (mp : IjkMediaPlayer) (what : PlayerWhat) : IjkMediaPlayer :=
  if mp.abort_request then mp else { mp with msg_queue := mp.msg_queue.filter fun msg => msg.what ≠ what }

def ijkmp_change_state_l (mp : IjkMediaPlayer) (new_state : MPState) : IjkMediaPlayer :=
  ffp_notify_msg { mp with mp_state := new_state } .MSG_PLAYBACK_STATE_CHANGED 0

def msg_queue_start (mp : IjkMediaPlayer) : IjkMediaPlayer :=
  ffp_notify_msg { mp with abort_request := false } .MSG_FLUSH 0

/-! ## The calls -/

/-- `ikjmp_chkst_start_l`, `ikjmp_chkst_pause_l` and `ikjmp_chkst_seek_l` test for the same states. -/
def chkst (mp_state : MPState) : ℤ :=
  match mp_state with
  | .PREPARED => 0
  | .STARTED => 0
  | .PAUSED => 0
  | .COMPLETED => 0
  | _ => EIJK_INVALID_STATE

def ijkmp_set_data_source_l (mp : IjkMediaPlayer) : IjkMediaPlayer × ℤ :=
  match mp.mp_state with
  | .IDLE => (mp.ijkmp_change_state_l .INITIALIZED, 0)
  | _ => (mp, EIJK_INVALID_STATE)

/-- `ret` is the answer of `ffp_prepare_async_l`. A stream that does not open has started no thread that reads, and
there are no messages of it. -/
def ijkmp_prepare_async_l (mp : IjkMediaPlayer) (ret : ℤ) : IjkMediaPlayer × ℤ :=
  if mp.mp_state = .INITIALIZED ∨ mp.mp_state = .STOPPED then
    let mp := (mp.ijkmp_change_state_l .ASYNC_PREPARING).msg_queue_start
    let mp := { mp with loops := mp.loops ++ [none] }
    if ret < 0 then (mp.ijkmp_change_state_l .ERROR, ret) else ({ mp with prepared := true }, 0)
  else (mp, EIJK_INVALID_STATE)

def ijkmp_start_l (mp : IjkMediaPlayer) : IjkMediaPlayer × ℤ :=
  if chkst mp.mp_state ≠ 0 then (mp, chkst mp.mp_state)
  else (((mp.ffp_remove_msg .REQ_START).ffp_remove_msg .REQ_PAUSE).ffp_notify_msg .REQ_START 0, 0)

def ijkmp_pause_l (mp : IjkMediaPlayer) : IjkMediaPlayer × ℤ :=
  if chkst mp.mp_state ≠ 0 then (mp, chkst mp.mp_state)
  else (((mp.ffp_remove_msg .REQ_START).ffp_remove_msg .REQ_PAUSE).ffp_notify_msg .REQ_PAUSE 0, 0)

/-- `ffp_stop_l` gives the queue up. -/
def ijkmp_stop_l (mp : IjkMediaPlayer) : IjkMediaPlayer × ℤ :=
  match mp.mp_state with
  | .IDLE => (mp, EIJK_INVALID_STATE)
  | .INITIALIZED => (mp, EIJK_INVALID_STATE)
  | .ERROR => (mp, EIJK_INVALID_STATE)
  | .END => (mp, EIJK_INVALID_STATE)
  | _ =>
      let mp := (mp.ffp_remove_msg .REQ_START).ffp_remove_msg .REQ_PAUSE
      (ijkmp_change_state_l { mp with abort_request := true, stopped := mp.stopped.or (some mp.calls) } .STOPPED, 0)

def ijkmp_seek_to_l (mp : IjkMediaPlayer) (msec : ℤ) : IjkMediaPlayer × ℤ :=
  if chkst mp.mp_state ≠ 0 then (mp, chkst mp.mp_state)
  else
    let mp := { mp with seek_req := true, seek_msec := msec, sought := some msec,
                        requested := if mp.abort_request then mp.requested else some msec }
    ((mp.ffp_remove_msg .REQ_SEEK).ffp_notify_msg .REQ_SEEK (toInt msec), 0)

/-- `position` is the answer of `ffp_get_current_position_l`. -/
def ijkmp_get_current_position (mp : IjkMediaPlayer) (position : ℤ) : ℤ :=
  if mp.seek_req then mp.seek_msec else position

/-! ## The message loop -/

def call (mp : IjkMediaPlayer) (c : FfpCall) : IjkMediaPlayer := { mp with calls := mp.calls ++ [c] }

/-- The switch of `ijkmp_get_msg`. `ffplay` has a stream, so that its calls do not fail. -/
def handle (mp : IjkMediaPlayer) (msg : PlayerMessage) : IjkMediaPlayer :=
  match msg.what with
  | .MSG_PREPARED =>
      let mp := if mp.mp_state = .ASYNC_PREPARING then mp.ijkmp_change_state_l .PREPARED else mp
      if !mp.start_on_prepared then mp.ijkmp_change_state_l .PAUSED else mp
  | .MSG_COMPLETED => ijkmp_change_state_l { mp with restart := true, restart_from_beginning := true } .COMPLETED
  | .MSG_SEEK_COMPLETE => { mp with seek_req := false, seek_msec := 0, sought := none }
  | .REQ_START =>
      if chkst mp.mp_state = 0 then
        if mp.restart then
          let mp := mp.call (if mp.restart_from_beginning then .ffp_start_from_l 0 else .ffp_start_l)
          let mp := mp.ijkmp_change_state_l .STARTED
          { mp with restart := false, restart_from_beginning := false }
        else (mp.call .ffp_start_l).ijkmp_change_state_l .STARTED
      else mp
  | .REQ_PAUSE => if chkst mp.mp_state = 0 then (mp.call .ffp_pause_l).ijkmp_change_state_l .PAUSED else mp
  | .REQ_SEEK =>
      if chkst mp.mp_state = 0 then call { mp with restart_from_beginning := false } (.ffp_seek_to_l msg.arg1) else mp
  | _ => mp

inductive Event where
  | set_data_source
  | prepare_async (ret : ℤ)
  | start
  | pause
  | stop
  | seek_to (msec : ℤ)
  /-- `msg_queue_get` returns a message to this loop. -/
  | get (loop : ℕ)
  | handle (loop : ℕ)
  /-- A thread of `ffplay` puts a message into the queue. Of the requests it makes that for a start only. -/
  | notify (what : PlayerWhat) (arg1 : ℤ)
  deriving DecidableEq, Repr

def step (mp : IjkMediaPlayer) : Event → Option IjkMediaPlayer
  | .set_data_source => some mp.ijkmp_set_data_source_l.1
  | .prepare_async ret => some (mp.ijkmp_prepare_async_l ret).1
  | .start => some mp.ijkmp_start_l.1
  | .pause => some mp.ijkmp_pause_l.1
  | .stop => some mp.ijkmp_stop_l.1
  | .seek_to msec => some (mp.ijkmp_seek_to_l msec).1
  | .get loop =>
      match mp.loops[loop]?, mp.msg_queue with
      | some none, msg :: rest =>
          if mp.abort_request then none else some { mp with loops := mp.loops.set loop (some msg), msg_queue := rest }
      | _, _ => none
  | .handle loop => mp.loops[loop]?.join.map fun msg => handle { mp with loops := mp.loops.set loop none } msg
  | .notify what arg1 =>
      if mp.prepared ∧ what ≠ .REQ_PAUSE ∧ what ≠ .REQ_SEEK then some (mp.ffp_notify_msg what arg1) else none

end IjkMediaPlayer

end MyDemo.Ijkmedia
