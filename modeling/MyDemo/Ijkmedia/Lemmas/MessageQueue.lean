import MyDemo.Ijkmedia.MessageQueue
import MyDemo.Lib.Trace

/-!
# The contents of the message queue

The queue is described by its messages and by what the nodes that are kept for reuse still hold.
-/

namespace MyDemo.Ijkmedia

variable {ω : Type*}

namespace AVMessage

/-- An object comes with a function that frees it. -/
def Owned (msg : AVMessage ω) : Prop := msg.obj.isSome → msg.free_l = true

theorem Owned.dropObj (msg : AVMessage ω) : msg.dropObj.Owned := nofun

theorem freeAll_owned {msgs : List (AVMessage ω)} (h : ∀ msg ∈ msgs, msg.Owned) :
    freeAll msgs = some (msgs.filterMap (·.obj)) := by
  induction msgs with
  | nil => rfl
  | cons msg msgs ih =>
      obtain ⟨hmsg, hmsgs⟩ := List.forall_mem_cons.mp h
      rw [freeAll, ih hmsgs, msg_free_res, List.filterMap_cons]
      cases hobj : msg.obj with
      | none => rfl
      | some obj =>
          rw [Owned, hobj] at hmsg
          simp only [hmsg rfl, if_true]
          rfl

end AVMessage

namespace MessageQueue

/-- The messages, and what the nodes for reuse hold. -/
structure Contents (ω : Type*) where
  msgs : List (AVMessage ω)
  stale : List (AVMessage ω)
  abort_request : Bool

namespace Contents

def empty : Contents ω := ⟨[], [], true⟩

def put (c : Contents ω) (msg : AVMessage ω) (allocated : Bool) : Contents ω × ℤ :=
  if c.abort_request ∨ c.stale = [] ∧ allocated = false then (c, -1)
  else ({ c with msgs := c.msgs ++ [msg], stale := c.stale.tail }, 0)

def flush (c : Contents ω) : Contents ω := { c with msgs := [], stale := c.msgs.reverse ++ c.stale }

def get (c : Contents ω) (block : Bool) : Contents ω × Got ω :=
  if c.abort_request then (c, .ret (-1))
  else
    match c.msgs with
    | [] => (c, if block then .wait else .ret 0)
    | msg :: msgs => ({ c with msgs := msgs, stale := msg.dropObj :: c.stale }, .msg msg)

def remove (c : Contents ω) (what : ℤ) : Contents ω × List ω :=
  if c.abort_request then (c, [])
  else
    let dropped := c.msgs.filter fun msg => msg.what = what
    ({ c with
        msgs := c.msgs.filter fun msg => !decide (msg.what = what)
        stale := (dropped.map AVMessage.dropObj).reverse ++ c.stale }, dropped.filterMap (·.obj))

def call (c : Contents ω) : Call ω → Contents ω × Outcome ω
  | .msg_queue_put_simple1 what allocated =>
      let r := c.put ⟨what, 0, 0, none, false⟩ allocated
      (r.1, ⟨.ret r.2, []⟩)
  | .msg_queue_put_simple2 what arg1 allocated =>
      let r := c.put ⟨what, arg1, 0, none, false⟩ allocated
      (r.1, ⟨.ret r.2, []⟩)
  | .msg_queue_put_simple3 what arg1 arg2 allocated =>
      let r := c.put ⟨what, arg1, arg2, none, false⟩ allocated
      (r.1, ⟨.ret r.2, []⟩)
  | .msg_queue_put_simple4 what arg1 arg2 obj allocated =>
      let r := c.put ⟨what, arg1, arg2, some obj, true⟩ allocated
      (r.1, ⟨.ret r.2, []⟩)
  | .msg_queue_flush => (c.flush, ⟨.ret 0, []⟩)
  | .msg_queue_abort => ({ c with abort_request := true }, ⟨.ret 0, []⟩)
  | .msg_queue_start allocated =>
      let r := { c with abort_request := false }.put ⟨FFP_MSG_FLUSH, 0, 0, none, false⟩ allocated
      (r.1, ⟨.ret r.2, []⟩)
  | .msg_queue_get block => ((c.get block).1, ⟨(c.get block).2, []⟩)
  | .msg_queue_remove what => ((c.remove what).1, ⟨.ret 0, (c.remove what).2⟩)

end Contents

/-- The memory of the queue holds the contents. -/
structure Models (q : MessageQueue ω) (c : Contents ω) : Prop where
  holds : ∃ cells spares, q.list.Holds cells spares ∧ cells.map Prod.snd = c.msgs ∧ spares.map Prod.snd = c.stale
  nb_messages : q.nb_messages = c.msgs.length
  abort_request : q.abort_request = c.abort_request
  owned : ∀ msg ∈ c.msgs ++ c.stale, msg.Owned

theorem Models.init : (msg_queue_init : MessageQueue ω).Models .empty :=
  ⟨⟨[], [], .empty, rfl, rfl⟩, rfl, rfl, nofun⟩

variable {q : MessageQueue ω} {c : Contents ω}

theorem countNode_frame (q : MessageQueue ω) :
    q.countNode.nb_messages = q.nb_messages ∧ q.countNode.abort_request = q.abort_request := by
  rw [countNode]
  split
  · exact ⟨rfl, rfl⟩
  · exact ⟨rfl, rfl⟩

theorem Contents.put_refused {msg : AVMessage ω} {allocated : Bool}
    (h : c.abort_request = true ∨ c.stale = [] ∧ allocated = false) : c.put msg allocated = (c, -1) := if_pos h

theorem Contents.put_accepted {msg : AVMessage ω} {allocated : Bool}
    (h : ¬(c.abort_request = true ∨ c.stale = [] ∧ allocated = false)) :
    c.put msg allocated = ({ c with msgs := c.msgs ++ [msg], stale := c.stale.tail }, 0) := if_neg h

theorem Models.put (h : q.Models c) (msg : AVMessage ω) (hmsg : msg.Owned) (allocated : Bool) :
    ∃ q', q.msg_queue_put_private msg allocated = some (q', (c.put msg allocated).2) ∧
      q'.Models (c.put msg allocated).1 := by
  obtain ⟨⟨cells, spares, hholds, hmsgs, hstale⟩, hnb, habort, howned⟩ := id h
  have hnil : spares = [] ↔ c.stale = [] := by rw [← hstale, List.map_eq_nil_iff]
  rw [msg_queue_put_private, habort]
  cases hc : c.abort_request with
  | true =>
      rw [Contents.put_refused (.inl hc)]
      exact ⟨q, rfl, h⟩
  | false =>
      have hframe := countNode_frame q
      rcases hholds.put msg allocated with ⟨hspares, rfl, hput⟩ | ⟨list, a, hput, hholds', hnew⟩
      · rw [Contents.put_refused (.inr ⟨hnil.mp hspares, rfl⟩), if_neg (by simp), hput]
        exact ⟨_, rfl, ⟨cells, spares, hholds, hmsgs, hstale⟩, hframe.1.trans hnb, hframe.2.trans habort, howned⟩
      · have hnot : ¬(c.abort_request = true ∨ c.stale = [] ∧ allocated = false) := by
          rintro (hf | ⟨hs, hf⟩)
          · rw [hc] at hf
            cases hf
          · rw [hnew (hnil.mpr hs)] at hf
            cases hf
        rw [Contents.put_accepted hnot, if_neg (by simp), hput]
        refine ⟨_, rfl, ⟨_, _, hholds', by simp [hmsgs], by simp [← hstale]⟩, ?_, hframe.2.trans habort, ?_⟩
        · change q.nb_messages + 1 = ((c.msgs ++ [msg]).length : ℤ)
          rw [hnb]
          simp
        · intro m hm
          simp only [List.append_assoc, List.mem_append, List.mem_singleton] at hm
          rcases hm with hm | rfl | hm
          · exact howned m (List.mem_append_left _ hm)
          · exact hmsg
          · exact howned m (List.mem_append_right _ (List.mem_of_mem_tail hm))

theorem Models.flush (h : q.Models c) : ∃ q', q.msg_queue_flush = some q' ∧ q'.Models c.flush := by
  obtain ⟨⟨cells, spares, hholds, hmsgs, hstale⟩, hnb, habort, howned⟩ := h
  obtain ⟨list, hflush, hholds'⟩ := hholds.flush id
  refine ⟨{ q with list := list, nb_messages := 0 }, by rw [msg_queue_flush, hflush]; rfl,
    ⟨_, _, hholds', rfl, ?_⟩, rfl, habort, ?_⟩
  · simp [Contents.flush, ← hmsgs, ← hstale]
  · intro m hm
    simp only [Contents.flush, List.nil_append, List.mem_append, List.mem_reverse] at hm
    exact howned m (List.mem_append.mpr hm)

theorem Models.get (h : q.Models c) (block : Bool) :
    ∃ q', q.msg_queue_get block = some (q', (c.get block).2) ∧ q'.Models (c.get block).1 := by
  obtain ⟨⟨cells, spares, hholds, hmsgs, hstale⟩, hnb, habort, howned⟩ := id h
  rw [msg_queue_get, Contents.get]
  by_cases hc : c.abort_request = true
  · rw [if_pos hc, if_pos (habort.trans hc)]
    exact ⟨q, rfl, h⟩
  · rw [if_neg hc, if_neg (habort ▸ hc)]
    rcases hholds.pop AVMessage.dropObj with ⟨rfl, hpop⟩ | ⟨a, msg, rest, list, rfl, hpop, hholds'⟩
    · have hnone : c.msgs = [] := hmsgs.symm
      rw [hpop, hnone]
      exact ⟨q, rfl, h⟩
    · have hcons : c.msgs = msg :: rest.map Prod.snd := hmsgs.symm
      rw [hcons] at hnb howned
      rw [hpop, hcons]
      refine ⟨_, rfl, ⟨_, _, hholds', rfl, by simp [hstale]⟩, ?_, habort, ?_⟩
      · change q.nb_messages - 1 = ((rest.map Prod.snd).length : ℤ)
        rw [hnb, List.length_cons]
        omega
      · intro m hm
        rcases List.mem_append.mp hm with hm | hm
        · exact howned m (by simp [hm])
        · rcases List.mem_cons.mp hm with rfl | hm
          · exact .dropObj msg
          · exact howned m (by simp [hm])

theorem Models.remove (h : q.Models c) (what : ℤ) :
    ∃ q', q.msg_queue_remove what = some (q', (c.remove what).2) ∧ q'.Models (c.remove what).1 := by
  obtain ⟨⟨cells, spares, hholds, hmsgs, hstale⟩, hnb, habort, howned⟩ := id h
  obtain ⟨msgs, stale, abort_request⟩ := c
  obtain rfl : cells.map Prod.snd = msgs := hmsgs
  obtain rfl : spares.map Prod.snd = stale := hstale
  obtain rfl : q.abort_request = abort_request := habort
  have hqueue := hholds.queue
  rw [msg_queue_remove, Contents.remove]
  by_cases hc : q.abort_request = true
  · rw [if_pos hc, if_neg (by simp [hc])]
    exact ⟨q, rfl, h⟩
  · rw [if_neg hc]
    cases cells with
    | nil =>
        have hfirst : q.list.first = none := hqueue
        rw [if_neg (by simp [hfirst])]
        exact ⟨q, rfl, h⟩
    | cons d rest =>
        obtain ⟨list, hremove, hholds'⟩ := hholds.remove AVMessage.dropObj fun msg => decide (msg.what = what)
        have hdropped : ∀ msg ∈ ((d :: rest).map Prod.snd).filter fun msg => decide (msg.what = what), msg.Owned :=
          fun msg hmsg => howned msg (List.mem_append_left _ (List.mem_filter.mp hmsg).1)
        rw [if_pos (by simp [hqueue.1, hc]), hremove]
        simp only [AVMessage.freeAll_owned hdropped, Option.map_some]
        refine ⟨_, rfl, ⟨_, _, hholds', ?_, ?_⟩, ?_, rfl, fun m hm => ?_⟩
        · exact Linked.Queue.map_snd_filter (fun msg : AVMessage ω => !decide (msg.what = what)) (d :: rest)
        · rw [List.map_append, List.map_reverse, Linked.Queue.map_snd_clear,
            Linked.Queue.map_snd_filter fun msg : AVMessage ω => decide (msg.what = what)]
        · have hparts := (List.filter_append_perm (fun msg : AVMessage ω => decide (msg.what = what))
            ((d :: rest).map Prod.snd)).length_eq
          rw [List.length_append] at hparts
          simp only [hnb]
          omega
        · rcases List.mem_append.mp hm with hm | hm
          · exact howned m (List.mem_append_left _ (List.mem_filter.mp hm).1)
          · rcases List.mem_append.mp hm with hm | hm
            · obtain ⟨m', _, rfl⟩ := List.mem_map.mp (List.mem_reverse.mp hm)
              exact .dropObj m'
            · exact howned m (List.mem_append_right _ hm)

theorem follows : Trace.Follows (call : MessageQueue ω → _) Contents.call Models := by
  intro q c a h
  cases a with
  | msg_queue_put_simple1 what allocated =>
      obtain ⟨q', hput, h'⟩ := h.put ⟨what, 0, 0, none, false⟩ nofun allocated
      exact ⟨q', congrArg (Option.map _) hput, h'⟩
  | msg_queue_put_simple2 what arg1 allocated =>
      obtain ⟨q', hput, h'⟩ := h.put ⟨what, arg1, 0, none, false⟩ nofun allocated
      exact ⟨q', congrArg (Option.map _) hput, h'⟩
  | msg_queue_put_simple3 what arg1 arg2 allocated =>
      obtain ⟨q', hput, h'⟩ := h.put ⟨what, arg1, arg2, none, false⟩ nofun allocated
      exact ⟨q', congrArg (Option.map _) hput, h'⟩
  | msg_queue_put_simple4 what arg1 arg2 obj allocated =>
      obtain ⟨q', hput, h'⟩ := h.put ⟨what, arg1, arg2, some obj, true⟩ (fun _ => rfl) allocated
      exact ⟨q', congrArg (Option.map _) hput, h'⟩
  | msg_queue_flush =>
      obtain ⟨q', hflush, h'⟩ := h.flush
      exact ⟨q', congrArg (Option.map _) hflush, h'⟩
  | msg_queue_abort => exact ⟨_, rfl, h.holds, h.nb_messages, rfl, h.owned⟩
  | msg_queue_start allocated =>
      have h₀ : Models { q with abort_request := false } { c with abort_request := false } :=
        ⟨h.holds, h.nb_messages, rfl, h.owned⟩
      obtain ⟨q', hput, h'⟩ := h₀.put ⟨FFP_MSG_FLUSH, 0, 0, none, false⟩ nofun allocated
      exact ⟨q', congrArg (Option.map _) hput, h'⟩
  | msg_queue_get block =>
      obtain ⟨q', hget, h'⟩ := h.get block
      exact ⟨q', congrArg (Option.map _) hget, h'⟩
  | msg_queue_remove what =>
      obtain ⟨q', hremove, h'⟩ := h.remove what
      exact ⟨q', congrArg (Option.map _) hremove, h'⟩

end MessageQueue

end MyDemo.Ijkmedia
