import MyDemo.Ijkmedia.Player

/-!
# Runs of the player
-/

namespace MyDemo.Ijkmedia

open Transition

/-- The states that the loop puts a player in. -/
def MPState.Running (mp_state : MPState) : Prop :=
  mp_state ≠ .IDLE ∧ mp_state ≠ .INITIALIZED ∧ mp_state ≠ .STOPPED

instance (mp_state : MPState) : Decidable mp_state.Running := inferInstanceAs (Decidable (_ ∧ _ ∧ _))

namespace IjkMediaPlayer

variable {mp mp' : IjkMediaPlayer}

/-! ## What the operations leave as it is -/

theorem notify_eq (mp : IjkMediaPlayer) (what : PlayerWhat) (arg1 : ℤ) :
    mp.ffp_notify_msg what arg1 =
      { mp with msg_queue := if mp.abort_request then mp.msg_queue else mp.msg_queue ++ [⟨what, arg1⟩] } := by
  by_cases habort : mp.abort_request = true
  · rw [ffp_notify_msg, if_pos habort, if_pos habort]
  · rw [ffp_notify_msg, if_neg habort, if_neg habort]

theorem remove_eq (mp : IjkMediaPlayer) (what : PlayerWhat) :
    mp.ffp_remove_msg what =
      { mp with msg_queue := if mp.abort_request then mp.msg_queue
                             else mp.msg_queue.filter fun msg => msg.what ≠ what } := by
  by_cases habort : mp.abort_request = true
  · rw [ffp_remove_msg, if_pos habort, if_pos habort]
  · rw [ffp_remove_msg, if_neg habort, if_neg habort]

theorem change_state_eq (mp : IjkMediaPlayer) (new_state : MPState) :
    ∃ msg_queue, mp.ijkmp_change_state_l new_state = { mp with mp_state := new_state, msg_queue := msg_queue } :=
  ⟨_, by rw [ijkmp_change_state_l, notify_eq]⟩

theorem opened_eq (mp : IjkMediaPlayer) : ∃ msg_queue, (mp.ijkmp_change_state_l .ASYNC_PREPARING).msg_queue_start =
    { mp with mp_state := .ASYNC_PREPARING, abort_request := false, msg_queue := msg_queue } := by
  obtain ⟨msg_queue, hchanged⟩ := change_state_eq mp .ASYNC_PREPARING
  rw [hchanged, msg_queue_start, notify_eq]
  exact ⟨_, rfl⟩

theorem get_eq_some {loop : ℕ} (hget : mp.step (.get loop) = some mp') :
    ∃ msg rest, mp.loops[loop]? = some none ∧ mp.msg_queue = msg :: rest ∧ mp.abort_request = false ∧
      mp' = { mp with loops := mp.loops.set loop (some msg), msg_queue := rest } := by
  rw [IjkMediaPlayer.step] at hget
  split at hget
  case h_1 msg rest hloop hqueue =>
      split at hget
      · cases hget
      case isFalse habort =>
          cases hget
          exact ⟨msg, rest, hloop, hqueue, Bool.eq_false_iff.mpr habort, rfl⟩
  case h_2 => cases hget

theorem handle_eq_some {loop : ℕ} (hhandle : mp.step (.handle loop) = some mp') :
    ∃ msg, mp.loops[loop]? = some (some msg) ∧ mp' = handle { mp with loops := mp.loops.set loop none } msg := by
  obtain ⟨msg, hmsg, rfl⟩ := Option.map_eq_some_iff.mp hhandle
  exact ⟨msg, Option.join_eq_some_iff.mp hmsg, rfl⟩

theorem notify_eq_some {what : PlayerWhat} {arg1 : ℤ} (hnotify : mp.step (.notify what arg1) = some mp') :
    what ≠ .REQ_SEEK ∧ mp' = mp.ffp_notify_msg what arg1 := by
  rw [IjkMediaPlayer.step] at hnotify
  split at hnotify
  case isTrue hwhat => exact ⟨hwhat.2.2, (Option.some.inj hnotify).symm⟩
  case isFalse => cases hnotify

/-! ## The calls after a stop -/

def Event.prepares : Event → Bool
  | .prepare_async _ => true
  | _ => false

/-- A player that was stopped is not prepared again. -/
def NotAgain (mp : IjkMediaPlayer) (a : Event) : Prop := mp.stopped.isSome = true → a.prepares = false

instance (mp : IjkMediaPlayer) (a : Event) : Decidable (NotAgain mp a) := inferInstanceAs (Decidable (_ → _))

/-- `after` is about a player that was stopped: the loop has at most the message that it had got before. -/
structure Inv (mp : IjkMediaPlayer) : Prop where
  one : mp.loops.length ≤ 1
  begun : mp.loops ≠ [] → mp.mp_state ≠ .IDLE ∧ mp.mp_state ≠ .INITIALIZED
  stop : mp.mp_state = .STOPPED → mp.stopped.isSome = true
  after : ∀ before, mp.stopped = some before →
    mp.calls = before ∧ mp.abort_request = true ∧ ∀ msg, some msg ∈ mp.loops → mp.mp_state = .STOPPED

theorem inv_create (start_on_prepared : Bool) : Inv (ijkmp_create start_on_prepared) :=
  ⟨Nat.zero_le 1, fun hne => absurd rfl hne, nofun, nofun⟩

theorem Inv.of_running (hone : mp.loops.length ≤ 1) (hstopped : mp.stopped = none) (hrunning : mp.mp_state.Running) :
    Inv mp :=
  ⟨hone, fun _ => ⟨hrunning.1, hrunning.2.1⟩, fun hstop => absurd hstop hrunning.2.2,
    fun before hbefore => absurd (hstopped.symm.trans hbefore) (Option.some_ne_none before).symm⟩

theorem Inv.notify (h : Inv mp) (what : PlayerWhat) (arg1 : ℤ) : Inv (mp.ffp_notify_msg what arg1) := by
  rw [notify_eq]
  exact ⟨h.one, h.begun, h.stop, h.after⟩

theorem Inv.remove (h : Inv mp) (what : PlayerWhat) : Inv (mp.ffp_remove_msg what) := by
  rw [remove_eq]
  exact ⟨h.one, h.begun, h.stop, h.after⟩

theorem Inv.start (h : Inv mp) : Inv mp.ijkmp_start_l.1 := by
  rw [ijkmp_start_l]
  split
  · exact h
  · exact ((h.remove _).remove _).notify _ _

theorem Inv.pause (h : Inv mp) : Inv mp.ijkmp_pause_l.1 := by
  rw [ijkmp_pause_l]
  split
  · exact h
  · exact ((h.remove _).remove _).notify _ _

theorem Inv.seek_to (h : Inv mp) (msec : ℤ) : Inv (mp.ijkmp_seek_to_l msec).1 := by
  rw [ijkmp_seek_to_l]
  split
  · exact h
  · have hsought : Inv { mp with seek_req := true, seek_msec := msec, sought := some msec,
                                 requested := if mp.abort_request then mp.requested else some msec } :=
      ⟨h.one, h.begun, h.stop, h.after⟩
    exact (hsought.remove _).notify _ _

theorem Inv.stopping (h : Inv mp) :
    Inv (ijkmp_change_state_l { mp with abort_request := true, stopped := mp.stopped.or (some mp.calls) }
      .STOPPED) := by
  have hcalls : ∀ before, mp.stopped.or (some mp.calls) = some before → mp.calls = before := by
    intro before hstopped
    cases hcase : mp.stopped with
    | none =>
        rw [hcase] at hstopped
        exact Option.some.inj hstopped
    | some calls =>
        rw [hcase] at hstopped
        exact (h.after calls hcase).1.trans (Option.some.inj hstopped)
  have hstopped : Inv { mp with mp_state := .STOPPED, abort_request := true,
                                stopped := mp.stopped.or (some mp.calls) } := by
    refine ⟨h.one, fun _ => ⟨MPState.noConfusion, MPState.noConfusion⟩, fun _ => ?_,
      fun before hbefore => ⟨hcalls before hbefore, rfl, fun _ _ => rfl⟩⟩
    change (mp.stopped.or (some mp.calls)).isSome = true
    rw [Option.isSome_or]
    exact Bool.or_true _
  exact hstopped.notify _ _

theorem Inv.stop_l (h : Inv mp) : Inv mp.ijkmp_stop_l.1 := by
  rw [ijkmp_stop_l]
  split
  case h_1 => exact h
  case h_2 => exact h
  case h_3 => exact h
  case h_4 => exact h
  case h_5 => exact ((h.remove .REQ_START).remove .REQ_PAUSE).stopping

theorem Inv.set_data_source (h : Inv mp) : Inv mp.ijkmp_set_data_source_l.1 := by
  rw [ijkmp_set_data_source_l]
  split
  case h_1 hstate =>
      have hloops : mp.loops = [] := by
        by_contra hne
        exact (h.begun hne).1 hstate
      have hnext : Inv { mp with mp_state := .INITIALIZED } := by
        refine ⟨h.one, fun hne => absurd hloops hne, nofun, fun before hbefore => ?_⟩
        obtain ⟨hcalls, habort, -⟩ := h.after before hbefore
        refine ⟨hcalls, habort, fun msg hmsg => absurd hmsg ?_⟩
        change some msg ∉ mp.loops
        rw [hloops]
        exact List.not_mem_nil
      exact hnext.notify _ _
  case h_2 => exact h

theorem Inv.prepare_async (h : Inv mp) (hstopped : mp.stopped = none) (ret : ℤ) :
    Inv (mp.ijkmp_prepare_async_l ret).1 := by
  rw [ijkmp_prepare_async_l]
  split
  case isFalse => exact h
  case isTrue hstate =>
      have hinitialized : mp.mp_state = .INITIALIZED := hstate.resolve_right fun hstop =>
        Bool.false_ne_true ((congrArg Option.isSome hstopped).symm.trans (h.stop hstop))
      have hloops : mp.loops = [] := by
        by_contra hne
        exact (h.begun hne).2 hinitialized
      obtain ⟨msg_queue, hopened⟩ := opened_eq mp
      rw [hopened]
      have hone : (mp.loops ++ [none]).length ≤ 1 := by
        rw [hloops]
        exact Nat.le_refl 1
      dsimp only
      split
      · obtain ⟨msg_queue, hchanged⟩ := change_state_eq { mp with
          mp_state := .ASYNC_PREPARING, abort_request := false, msg_queue := msg_queue
          loops := mp.loops ++ [none] } .ERROR
        rw [hchanged]
        exact .of_running hone hstopped (show MPState.ERROR.Running by decide)
      · exact .of_running hone hstopped (show MPState.ASYNC_PREPARING.Running by decide)

/-- The loop handles a message in this state. -/
structure Ready (mp : IjkMediaPlayer) : Prop where
  inv : Inv mp
  idle : ∀ msg, some msg ∉ mp.loops

theorem Ready.change_state (h : Ready mp) {new_state : MPState} (hrunning : new_state.Running) :
    Ready (mp.ijkmp_change_state_l new_state) := by
  rw [ijkmp_change_state_l, notify_eq]
  refine ⟨⟨h.inv.one, fun _ => ⟨hrunning.1, hrunning.2.1⟩, fun hstop => absurd hstop hrunning.2.2,
    fun before hbefore => ?_⟩, h.idle⟩
  obtain ⟨hcalls, habort, -⟩ := h.inv.after before hbefore
  exact ⟨hcalls, habort, fun msg hmsg => absurd hmsg (h.idle msg)⟩

/-- The flags of a restart and of a seek are of no account. -/
theorem Ready.flags (h : Ready mp) (restart restart_from_beginning seek_req : Bool) (seek_msec : ℤ)
    (sought : Option ℤ) :
    Ready { mp with restart := restart, restart_from_beginning := restart_from_beginning, seek_req := seek_req,
                    seek_msec := seek_msec, sought := sought } :=
  ⟨⟨h.inv.one, h.inv.begun, h.inv.stop, h.inv.after⟩, h.idle⟩

/-- A player that was stopped is not in a state of `chkst` while its last message is handled. -/
theorem Ready.call (h : Ready mp) (hstopped : mp.stopped.isSome = true → mp.mp_state = .STOPPED)
    (hstate : chkst mp.mp_state = 0) (c : FfpCall) : Ready (mp.call c) := by
  refine ⟨⟨h.inv.one, h.inv.begun, h.inv.stop, fun before hbefore => ?_⟩, h.idle⟩
  have hstop := hstopped (by rw [show mp.stopped = some before from hbefore]; rfl)
  rw [hstop] at hstate
  exact absurd hstate (by decide)

theorem Ready.paused (h : Ready mp) :
    Ready (if !mp.start_on_prepared then mp.ijkmp_change_state_l .PAUSED else mp) := by
  split
  · exact h.change_state (by decide)
  · exact h

theorem Ready.handle (h : Ready mp) (hstopped : mp.stopped.isSome = true → mp.mp_state = .STOPPED)
    (msg : PlayerMessage) : Ready (mp.handle msg) := by
  rw [IjkMediaPlayer.handle]
  split
  case h_1 =>
      have hprepared : Ready (if mp.mp_state = .ASYNC_PREPARING then mp.ijkmp_change_state_l .PREPARED else mp) := by
        split
        · exact h.change_state (by decide)
        · exact h
      exact hprepared.paused
  case h_2 => exact (h.flags true true mp.seek_req mp.seek_msec mp.sought).change_state (by decide)
  case h_3 => exact h.flags mp.restart mp.restart_from_beginning false 0 none
  case h_4 =>
      split
      case isTrue hstate =>
          split
          · have hcalled := h.call hstopped hstate
              (if mp.restart_from_beginning then .ffp_start_from_l 0 else .ffp_start_l)
            have hstarted : Ready ((mp.call _).ijkmp_change_state_l .STARTED) := hcalled.change_state (by decide)
            exact hstarted.flags false false _ _ _
          · exact (h.call hstopped hstate _).change_state (by decide)
      case isFalse => exact h
  case h_5 =>
      split
      case isTrue hstate => exact (h.call hstopped hstate _).change_state (by decide)
      case isFalse => exact h
  case h_6 =>
      split
      case isTrue hstate =>
          exact (h.flags mp.restart false mp.seek_req mp.seek_msec mp.sought).call hstopped hstate _
      case isFalse => exact h
  case h_7 => exact h

/-- There is no other loop, and this one has given its message. -/
theorem Inv.ready {loop : ℕ} {msg : PlayerMessage} (h : Inv mp) (hmsg : mp.loops[loop]? = some (some msg)) :
    Ready { mp with loops := mp.loops.set loop none } := by
  have hone : mp.loops = [some msg] := by
    obtain ⟨l, hl⟩ := List.length_eq_one_iff.mp
      (Nat.le_antisymm h.one (List.length_pos_of_mem (List.mem_of_getElem? hmsg)))
    rw [hl] at hmsg ⊢
    rw [List.mem_singleton.mp (List.mem_of_getElem? hmsg)]
  have hloop : loop = 0 := by
    have hlt := (List.getElem?_eq_some_iff.mp hmsg).1
    rw [hone] at hlt
    exact Nat.lt_one_iff.mp hlt
  have hidle : ∀ m : PlayerMessage, some m ∉ mp.loops.set loop none := by
    intro m
    rw [hone, hloop]
    exact fun hmem => absurd (List.mem_singleton.mp hmem) (Option.some_ne_none m)
  refine ⟨⟨?_, fun _ => h.begun ?_, h.stop, fun before hbefore => ?_⟩, hidle⟩
  · change (mp.loops.set loop none).length ≤ 1
    rw [List.length_set]
    exact h.one
  · rw [hone]
    exact List.cons_ne_nil _ _
  · obtain ⟨hcalls, habort, -⟩ := h.after before hbefore
    exact ⟨hcalls, habort, fun m hm => absurd hm (hidle m)⟩

theorem Inv.handle {loop : ℕ} {msg : PlayerMessage} (h : Inv mp) (hmsg : mp.loops[loop]? = some (some msg)) :
    Inv (IjkMediaPlayer.handle { mp with loops := mp.loops.set loop none } msg) := by
  refine ((h.ready hmsg).handle (fun hstopped => ?_) msg).inv
  obtain ⟨before, hbefore⟩ := Option.isSome_iff_exists.mp hstopped
  exact (h.after before hbefore).2.2 msg (List.mem_of_getElem? hmsg)

theorem Inv.get {loop : ℕ} (h : Inv mp) (hget : mp.step (.get loop) = some mp') : Inv mp' := by
  obtain ⟨msg, rest, hloop, hqueue, habort, rfl⟩ := get_eq_some hget
  refine ⟨?_, fun _ => h.begun (List.ne_nil_of_mem (List.mem_of_getElem? hloop)), h.stop, fun before hbefore => ?_⟩
  · change (mp.loops.set loop (some msg)).length ≤ 1
    rw [List.length_set]
    exact h.one
  · exact absurd (habort.symm.trans (h.after before hbefore).2.1) Bool.false_ne_true

theorem Inv.step {a : Event} (h : Inv mp) (ha : NotAgain mp a) (hstep : mp.step a = some mp') : Inv mp' := by
  cases a with
  | set_data_source => exact Option.some.inj hstep ▸ h.set_data_source
  | prepare_async ret =>
      have hstopped : mp.stopped = none := by
        cases hcase : mp.stopped with
        | none => rfl
        | some before => exact absurd (ha (by rw [hcase]; rfl)).symm Bool.false_ne_true
      exact Option.some.inj hstep ▸ h.prepare_async hstopped ret
  | start => exact Option.some.inj hstep ▸ h.start
  | pause => exact Option.some.inj hstep ▸ h.pause
  | stop => exact Option.some.inj hstep ▸ h.stop_l
  | seek_to msec => exact Option.some.inj hstep ▸ h.seek_to msec
  | get loop => exact h.get hstep
  | handle loop =>
      obtain ⟨msg, hmsg, rfl⟩ := handle_eq_some hstep
      exact h.handle hmsg
  | notify what arg1 =>
      obtain ⟨-, rfl⟩ := notify_eq_some hstep
      exact h.notify what arg1

/-- Whatever else is asked of the player and whatever `ffplay` tells it, it does not call `ffplay` after the stop. -/
theorem no_call_after_stop (start_on_prepared : Bool) {as : List Event}
    (h : Each IjkMediaPlayer.step NotAgain (ijkmp_create start_on_prepared) as) :
    Always IjkMediaPlayer.step (fun mp => ∀ before, mp.stopped = some before → mp.calls = before)
      (ijkmp_create start_on_prepared) as :=
  always_of_each (I := Inv) (fun _ _ _ h ha hstep => h.step ha hstep)
    (fun _ h before hbefore => (h.after before hbefore).1)
    (inv_create start_on_prepared) h

/-- The loop has a request when the player is stopped. -/
theorem no_call_after_stop_pause :
    Each IjkMediaPlayer.step NotAgain (ijkmp_create true) [.set_data_source, .prepare_async 0, .get 0, .handle 0,
        .notify .MSG_PREPARED 0, .get 0, .handle 0, .get 0, .handle 0, .pause, .get 0, .stop, .handle 0] ∧
      Always IjkMediaPlayer.step (fun mp => ∀ before, mp.stopped = some before → mp.calls = before) (ijkmp_create true)
        [.set_data_source, .prepare_async 0, .get 0, .handle 0, .notify .MSG_PREPARED 0, .get 0, .handle 0, .get 0,
          .handle 0, .pause, .get 0, .stop, .handle 0] :=
  have hrun : Each IjkMediaPlayer.step NotAgain (ijkmp_create true) [.set_data_source, .prepare_async 0, .get 0,
      .handle 0, .notify .MSG_PREPARED 0, .get 0, .handle 0, .get 0, .handle 0, .pause, .get 0, .stop, .handle 0] := by
    decide
  ⟨hrun, no_call_after_stop true hrun⟩

/-! ## The state after a stop -/

def Stays (mp : IjkMediaPlayer) : Prop := mp.stopped.isSome = true → mp.mp_state = .STOPPED

/-- After a stop no loop handles a message that takes the player on, and the player is not prepared again. -/
def Harmless (mp : IjkMediaPlayer) : Event → Prop
  | .handle loop => mp.stopped.isSome = true → ∀ msg, mp.loops[loop]? = some (some msg) →
      msg.what ≠ .MSG_COMPLETED ∧ (msg.what = .MSG_PREPARED → mp.start_on_prepared = true)
  | .prepare_async _ => mp.stopped.isSome = false
  | _ => True

theorem stays_create (start_on_prepared : Bool) : Stays (ijkmp_create start_on_prepared) :=
  fun hsome => absurd hsome Bool.false_ne_true

theorem Stays.notify (h : Stays mp) (what : PlayerWhat) (arg1 : ℤ) : Stays (mp.ffp_notify_msg what arg1) := by
  rw [notify_eq]
  exact h

theorem Stays.remove (h : Stays mp) (what : PlayerWhat) : Stays (mp.ffp_remove_msg what) := by
  rw [remove_eq]
  exact h

theorem mp_state_change_state (mp : IjkMediaPlayer) (new_state : MPState) :
    (mp.ijkmp_change_state_l new_state).mp_state = new_state := by
  rw [ijkmp_change_state_l, notify_eq]

theorem stopped_change_state (mp : IjkMediaPlayer) (new_state : MPState) :
    (mp.ijkmp_change_state_l new_state).stopped = mp.stopped := by
  rw [ijkmp_change_state_l, notify_eq]

theorem Stays.start (h : Stays mp) : Stays mp.ijkmp_start_l.1 := by
  rw [ijkmp_start_l]
  split
  · exact h
  · exact ((h.remove _).remove _).notify _ _

theorem Stays.pause (h : Stays mp) : Stays mp.ijkmp_pause_l.1 := by
  rw [ijkmp_pause_l]
  split
  · exact h
  · exact ((h.remove _).remove _).notify _ _

theorem Stays.seek_to (h : Stays mp) (msec : ℤ) : Stays (mp.ijkmp_seek_to_l msec).1 := by
  rw [ijkmp_seek_to_l]
  split
  · exact h
  · have hsought : Stays { mp with seek_req := true, seek_msec := msec, sought := some msec,
                                   requested := if mp.abort_request then mp.requested else some msec } := h
    exact (hsought.remove _).notify _ _

theorem Stays.stop (h : Stays mp) : Stays mp.ijkmp_stop_l.1 := by
  rw [ijkmp_stop_l]
  split
  case h_1 => exact h
  case h_2 => exact h
  case h_3 => exact h
  case h_4 => exact h
  case h_5 => exact fun _ => mp_state_change_state _ _

theorem Stays.set_data_source (h : Stays mp) : Stays mp.ijkmp_set_data_source_l.1 := by
  rw [ijkmp_set_data_source_l]
  split
  case h_1 hstate =>
      intro hstopped
      rw [stopped_change_state] at hstopped
      exact absurd (hstate.symm.trans (h hstopped)) (by decide)
  case h_2 => exact h

theorem stays_prepare_async (h : Stays mp) (ret : ℤ) :
    Stays (mp.ijkmp_prepare_async_l ret).1 ↔ mp.stopped.isSome = false := by
  obtain ⟨msg_queue, hopened⟩ := opened_eq mp
  constructor
  · intro hstays
    by_contra hstopped
    have hsome : mp.stopped.isSome = true := Bool.not_eq_false _ ▸ hstopped
    rw [ijkmp_prepare_async_l, if_pos (.inr (h hsome)), hopened] at hstays
    dsimp only at hstays
    split at hstays
    · have hstop := hstays (by rw [stopped_change_state]; exact hsome)
      rw [mp_state_change_state] at hstop
      exact absurd hstop (by decide)
    · exact absurd (show MPState.ASYNC_PREPARING = .STOPPED from hstays hsome) (by decide)
  · intro hstopped
    have hstays : ∀ mp₁ : IjkMediaPlayer, mp₁.stopped = mp.stopped → Stays mp₁ := fun mp₁ heq hsome => by
      rw [heq, hstopped] at hsome
      exact absurd hsome Bool.false_ne_true
    rw [ijkmp_prepare_async_l, hopened]
    split
    · dsimp only
      split
      · exact hstays _ (stopped_change_state _ _)
      · exact hstays _ rfl
    · exact h

theorem stopped_handle (mp : IjkMediaPlayer) (msg : PlayerMessage) : (mp.handle msg).stopped = mp.stopped := by
  rw [IjkMediaPlayer.handle]
  split
  case h_1 =>
      have hprepared : (if mp.mp_state = .ASYNC_PREPARING then mp.ijkmp_change_state_l .PREPARED else mp).stopped =
          mp.stopped := by
        split
        · exact stopped_change_state mp _
        · rfl
      rw [← hprepared]
      generalize (if mp.mp_state = .ASYNC_PREPARING then mp.ijkmp_change_state_l .PREPARED else mp) = mp₁
      dsimp only
      split
      · exact stopped_change_state mp₁ _
      · rfl
  case h_2 => exact stopped_change_state _ _
  case h_3 => rfl
  case h_4 =>
      split
      · split
        · exact stopped_change_state (mp.call _) _
        · exact stopped_change_state (mp.call _) _
      · rfl
  case h_5 =>
      split
      · exact stopped_change_state (mp.call _) _
      · rfl
  case h_6 =>
      split
      · rfl
      · rfl
  case h_7 => rfl

theorem handle_completed (mp : IjkMediaPlayer) {msg : PlayerMessage} (hwhat : msg.what = .MSG_COMPLETED) :
    (mp.handle msg).mp_state = .COMPLETED := by
  rw [IjkMediaPlayer.handle, hwhat]
  exact mp_state_change_state _ _

theorem handle_prepared (hstate : mp.mp_state = .STOPPED) {msg : PlayerMessage} (hwhat : msg.what = .MSG_PREPARED) :
    (mp.handle msg).mp_state = .STOPPED ↔ mp.start_on_prepared = true := by
  have hpreparing : ¬mp.mp_state = .ASYNC_PREPARING := by
    rw [hstate]
    decide
  rw [IjkMediaPlayer.handle, hwhat]
  dsimp only
  rw [if_neg hpreparing]
  by_cases hstart : mp.start_on_prepared = true
  · rw [if_neg (by rw [hstart]; decide)]
    exact ⟨fun _ => hstart, fun _ => hstate⟩
  · rw [if_pos (by rw [Bool.eq_false_iff.mpr hstart]; rfl), mp_state_change_state]
    exact ⟨fun h => absurd h (by decide), fun h => absurd h hstart⟩

theorem handle_other (hstate : mp.mp_state = .STOPPED) {msg : PlayerMessage} (hcompleted : msg.what ≠ .MSG_COMPLETED)
    (hprepared : msg.what ≠ .MSG_PREPARED) : (mp.handle msg).mp_state = .STOPPED := by
  have hchkst : ¬chkst mp.mp_state = 0 := by
    rw [hstate]
    decide
  rw [IjkMediaPlayer.handle]
  split
  case h_1 hwhat => exact absurd hwhat hprepared
  case h_2 hwhat => exact absurd hwhat hcompleted
  case h_3 => exact hstate
  case h_4 =>
      rw [if_neg hchkst]
      exact hstate
  case h_5 =>
      rw [if_neg hchkst]
      exact hstate
  case h_6 =>
      rw [if_neg hchkst]
      exact hstate
  case h_7 => exact hstate

/-- After a stop there are two messages that take the player on. -/
theorem handle_of_stopped (hstate : mp.mp_state = .STOPPED) (msg : PlayerMessage) :
    (mp.handle msg).mp_state = .STOPPED ↔
      msg.what ≠ .MSG_COMPLETED ∧ (msg.what = .MSG_PREPARED → mp.start_on_prepared = true) := by
  by_cases hcompleted : msg.what = .MSG_COMPLETED
  · rw [handle_completed mp hcompleted]
    exact ⟨fun h => absurd h (by decide), fun h => absurd hcompleted h.1⟩
  · by_cases hprepared : msg.what = .MSG_PREPARED
    · rw [handle_prepared hstate hprepared]
      exact ⟨fun h => ⟨hcompleted, fun _ => h⟩, fun h => h.2 hprepared⟩
    · exact ⟨fun _ => ⟨hcompleted, fun h => absurd h hprepared⟩, fun _ => handle_other hstate hcompleted hprepared⟩

theorem stays_handle {loop : ℕ} (h : Stays mp) {msg : PlayerMessage} (hmsg : mp.loops[loop]? = some (some msg)) :
    Stays (IjkMediaPlayer.handle { mp with loops := mp.loops.set loop none } msg) ↔ Harmless mp (.handle loop) := by
  have hstopped : (IjkMediaPlayer.handle { mp with loops := mp.loops.set loop none } msg).stopped = mp.stopped :=
    stopped_handle _ msg
  have hwhat (hsome : mp.stopped.isSome = true) :
      (IjkMediaPlayer.handle { mp with loops := mp.loops.set loop none } msg).mp_state = .STOPPED ↔
      msg.what ≠ .MSG_COMPLETED ∧ (msg.what = .MSG_PREPARED → mp.start_on_prepared = true) := by
    have htaken : { mp with loops := mp.loops.set loop none }.mp_state = .STOPPED := h hsome
    exact handle_of_stopped htaken msg
  rw [Stays, hstopped]
  constructor
  · intro hstays hsome m hm
    cases Option.some.inj (Option.some.inj (hmsg.symm.trans hm))
    exact (hwhat hsome).mp (hstays hsome)
  · intro hharmless hsome
    exact (hwhat hsome).mpr (hharmless hsome msg hmsg)

theorem stays_step {a : Event} (h : Stays mp) (hstep : mp.step a = some mp') : Stays mp' ↔ Harmless mp a := by
  cases a with
  | set_data_source => exact iff_of_true (Option.some.inj hstep ▸ h.set_data_source) trivial
  | prepare_async ret => exact Option.some.inj hstep ▸ stays_prepare_async h ret
  | start => exact iff_of_true (Option.some.inj hstep ▸ h.start) trivial
  | pause => exact iff_of_true (Option.some.inj hstep ▸ h.pause) trivial
  | stop => exact iff_of_true (Option.some.inj hstep ▸ h.stop) trivial
  | seek_to msec => exact iff_of_true (Option.some.inj hstep ▸ h.seek_to msec) trivial
  | get loop =>
      obtain ⟨msg, rest, _, _, _, rfl⟩ := get_eq_some hstep
      exact iff_of_true h trivial
  | handle loop =>
      obtain ⟨msg, hmsg, rfl⟩ := handle_eq_some hstep
      exact stays_handle h hmsg
  | notify what arg1 =>
      obtain ⟨-, rfl⟩ := notify_eq_some hstep
      exact iff_of_true (h.notify what arg1) trivial

/-- The player stays stopped unless it is prepared again, or a message that a loop had got before the stop is of the
end, or of the preparation of a player that is to wait for its start. -/
theorem stays_stopped_iff (start_on_prepared : Bool) (as : List Event) :
    Always IjkMediaPlayer.step (fun mp => mp.stopped.isSome = true → mp.mp_state = .STOPPED)
      (ijkmp_create start_on_prepared) as ↔
      Each IjkMediaPlayer.step Harmless (ijkmp_create start_on_prepared) as :=
  always_iff_each_of_keeps (I := fun _ => True) (P := Stays) (fun _ _ _ _ _ => trivial)
    (fun _ _ _ _ h hstep => stays_step h hstep) trivial (stays_create start_on_prepared) as

-- The loop has the message of the end when the player is stopped.
example : (run IjkMediaPlayer.step (ijkmp_create true) [.set_data_source, .prepare_async 0, .get 0, .handle 0,
    .notify .MSG_COMPLETED 0, .get 0, .stop, .handle 0]).map mp_state = some .COMPLETED := by decide

/-! ## Seeks -/

/-- The requests for a seek that wait in the queue. -/
def pending (mp : IjkMediaPlayer) : List PlayerMessage := mp.msg_queue.filter fun msg => msg.what = .REQ_SEEK

structure Seeks (mp : IjkMediaPlayer) : Prop where
  asked : mp.sought = if mp.seek_req then some mp.seek_msec else none
  last : mp.pending.Sublist (mp.requested.map fun msec => PlayerMessage.mk .REQ_SEEK (toInt msec)).toList

theorem seeks_create (start_on_prepared : Bool) : Seeks (ijkmp_create start_on_prepared) :=
  ⟨rfl, List.nil_sublist _⟩

theorem pending_append (msgs : List PlayerMessage) {what : PlayerWhat} (hwhat : what ≠ .REQ_SEEK) (arg1 : ℤ) :
    (msgs ++ [PlayerMessage.mk what arg1]).filter (fun msg => msg.what = .REQ_SEEK) =
      msgs.filter fun msg => msg.what = .REQ_SEEK := by
  rw [List.filter_append, List.filter_cons_of_neg (by simpa using hwhat), List.filter_nil, List.append_nil]

theorem Seeks.notify (h : Seeks mp) {what : PlayerWhat} (hwhat : what ≠ .REQ_SEEK) (arg1 : ℤ) :
    Seeks (mp.ffp_notify_msg what arg1) := by
  rw [ffp_notify_msg]
  split
  · exact h
  · refine ⟨h.asked, ?_⟩
    have hpending := h.last
    rw [pending, ← pending_append mp.msg_queue hwhat arg1] at hpending
    exact hpending

theorem Seeks.remove (h : Seeks mp) (what : PlayerWhat) : Seeks (mp.ffp_remove_msg what) := by
  rw [ffp_remove_msg]
  split
  · exact h
  · exact ⟨h.asked, (List.filter_sublist.filter _).trans h.last⟩

theorem Seeks.change_state (h : Seeks mp) (new_state : MPState) : Seeks (mp.ijkmp_change_state_l new_state) := by
  have hmoved : Seeks { mp with mp_state := new_state } := ⟨h.asked, h.last⟩
  exact hmoved.notify (by decide) 0

theorem Seeks.call (h : Seeks mp) (c : FfpCall) : Seeks (mp.call c) := ⟨h.asked, h.last⟩

theorem Seeks.start (h : Seeks mp) : Seeks mp.ijkmp_start_l.1 := by
  rw [ijkmp_start_l]
  split
  · exact h
  · exact ((h.remove _).remove _).notify (by decide) 0

theorem Seeks.pause (h : Seeks mp) : Seeks mp.ijkmp_pause_l.1 := by
  rw [ijkmp_pause_l]
  split
  · exact h
  · exact ((h.remove _).remove _).notify (by decide) 0

/-- In an open queue the requests before are gone, and in one that was aborted nothing changes. -/
theorem Seeks.seek_to (h : Seeks mp) (msec : ℤ) : Seeks (mp.ijkmp_seek_to_l msec).1 := by
  rw [ijkmp_seek_to_l]
  split
  · exact h
  · by_cases habort : mp.abort_request = true
    · rw [if_pos habort]
      have hsought : Seeks { mp with seek_req := true, seek_msec := msec, sought := some msec,
                                     requested := mp.requested } := ⟨rfl, h.last⟩
      dsimp only
      rw [ffp_remove_msg, if_pos habort, ffp_notify_msg, if_pos habort]
      exact hsought
    · rw [if_neg habort]
      dsimp only
      rw [ffp_remove_msg, if_neg habort, ffp_notify_msg, if_neg habort]
      refine ⟨rfl, ?_⟩
      have hnone : (mp.msg_queue.filter fun msg => msg.what ≠ .REQ_SEEK).filter (fun msg => msg.what = .REQ_SEEK) =
          [] := by
        refine List.filter_eq_nil_iff.mpr fun msg hmem => ?_
        have hother := (List.mem_filter.mp hmem).2
        simpa using hother
      rw [pending, List.filter_append, hnone]
      exact List.Sublist.refl _

theorem Seeks.stop (h : Seeks mp) : Seeks mp.ijkmp_stop_l.1 := by
  rw [ijkmp_stop_l]
  split
  case h_1 => exact h
  case h_2 => exact h
  case h_3 => exact h
  case h_4 => exact h
  case h_5 =>
      have hremoved := (h.remove .REQ_START).remove .REQ_PAUSE
      generalize (mp.ffp_remove_msg .REQ_START).ffp_remove_msg .REQ_PAUSE = mp₁ at hremoved
      have hstopped : Seeks { mp₁ with abort_request := true, stopped := mp₁.stopped.or (some mp₁.calls) } :=
        ⟨hremoved.asked, hremoved.last⟩
      exact hstopped.change_state .STOPPED

theorem Seeks.set_data_source (h : Seeks mp) : Seeks mp.ijkmp_set_data_source_l.1 := by
  rw [ijkmp_set_data_source_l]
  split
  · exact h.change_state _
  · exact h

theorem Seeks.prepare_async (h : Seeks mp) (ret : ℤ) : Seeks (mp.ijkmp_prepare_async_l ret).1 := by
  rw [ijkmp_prepare_async_l]
  split
  · have hchanged := h.change_state .ASYNC_PREPARING
    have hstarted : Seeks (mp.ijkmp_change_state_l .ASYNC_PREPARING).msg_queue_start := by
      have hopen : Seeks { mp.ijkmp_change_state_l .ASYNC_PREPARING with abort_request := false } :=
        ⟨hchanged.asked, hchanged.last⟩
      exact hopen.notify (by decide) 0
    generalize (mp.ijkmp_change_state_l .ASYNC_PREPARING).msg_queue_start = mp₁ at hstarted
    have hloop : Seeks { mp₁ with loops := mp₁.loops ++ [none] } := ⟨hstarted.asked, hstarted.last⟩
    dsimp only
    split
    · exact hloop.change_state .ERROR
    · exact ⟨hstarted.asked, hstarted.last⟩
  · exact h

theorem Seeks.handle (h : Seeks mp) (msg : PlayerMessage) : Seeks (mp.handle msg) := by
  rw [IjkMediaPlayer.handle]
  split
  case h_1 =>
      have hprepared : Seeks (if mp.mp_state = .ASYNC_PREPARING then mp.ijkmp_change_state_l .PREPARED else mp) := by
        split
        · exact h.change_state _
        · exact h
      generalize (if mp.mp_state = .ASYNC_PREPARING then mp.ijkmp_change_state_l .PREPARED else mp) = mp₁ at hprepared
      dsimp only
      split
      · exact hprepared.change_state _
      · exact hprepared
  case h_2 =>
      have hrestart : Seeks { mp with restart := true, restart_from_beginning := true } := ⟨h.asked, h.last⟩
      exact hrestart.change_state _
  case h_3 => exact ⟨rfl, h.last⟩
  case h_4 =>
      split
      · split
        · have hcalled := h.call (if mp.restart_from_beginning then .ffp_start_from_l 0 else .ffp_start_l)
          have hstarted := hcalled.change_state .STARTED
          exact ⟨hstarted.asked, hstarted.last⟩
        · exact (h.call _).change_state _
      · exact h
  case h_5 =>
      split
      · exact (h.call _).change_state _
      · exact h
  case h_6 =>
      split
      · exact ⟨h.asked, h.last⟩
      · exact h
  case h_7 => exact h

theorem Seeks.step {a : Event} (h : Seeks mp) (hstep : mp.step a = some mp') : Seeks mp' := by
  cases a with
  | set_data_source => exact Option.some.inj hstep ▸ h.set_data_source
  | prepare_async ret => exact Option.some.inj hstep ▸ h.prepare_async ret
  | start => exact Option.some.inj hstep ▸ h.start
  | pause => exact Option.some.inj hstep ▸ h.pause
  | stop => exact Option.some.inj hstep ▸ h.stop
  | seek_to msec => exact Option.some.inj hstep ▸ h.seek_to msec
  | get loop =>
      obtain ⟨msg, rest, _, hqueue, _, rfl⟩ := get_eq_some hstep
      refine ⟨h.asked, List.Sublist.trans ?_ h.last⟩
      rw [pending, pending, hqueue]
      exact (List.sublist_cons_self msg rest).filter _
  | handle loop =>
      obtain ⟨msg, _, rfl⟩ := handle_eq_some hstep
      have htaken : Seeks { mp with loops := mp.loops.set loop none } := ⟨h.asked, h.last⟩
      exact htaken.handle msg
  | notify what arg1 =>
      obtain ⟨hwhat, rfl⟩ := notify_eq_some hstep
      exact h.notify hwhat arg1

/-- A seek replaces those that still wait, if the queue is open. Until its end, and only until then,
`ijkmp_get_current_position` answers with its position. -/
theorem last_seek (start_on_prepared : Bool) (as : List Event) :
    Always IjkMediaPlayer.step
      (fun mp => (∀ position, mp.ijkmp_get_current_position position = mp.sought.getD position) ∧
        mp.pending.Sublist (mp.requested.map fun msec => PlayerMessage.mk .REQ_SEEK (toInt msec)).toList)
      (ijkmp_create start_on_prepared) as := by
  refine always_of_invariant (I := Seeks) (fun _ _ _ h hstep => h.step hstep)
    (fun mp h => ⟨fun position => ?_, h.last⟩) (seeks_create start_on_prepared) as
  rw [ijkmp_get_current_position, h.asked]
  split
  · rfl
  · rfl

end IjkMediaPlayer

end MyDemo.Ijkmedia
