import MyDemo.Ijkmedia.Lemmas.MessageQueue
import Mathlib.Data.List.Count

/-!
# Calls to the message queue
-/

namespace MyDemo.Ijkmedia

variable {ω : Type*}

namespace Got

def msg? : Got ω → Option (AVMessage ω)
  | .msg m => some m
  | _ => none

/-- What `msg_queue_put_private` returns for a message that it takes. -/
def ok : Got ω → Bool
  | .ret n => n = 0
  | _ => false

end Got

namespace MessageQueue

/-! ## What goes in and out -/

/-- The message that a call puts. -/
def Call.msg? : Call ω → Option (AVMessage ω)
  | .msg_queue_put_simple1 what _ => some ⟨what, 0, 0, none, false⟩
  | .msg_queue_put_simple2 what arg1 _ => some ⟨what, arg1, 0, none, false⟩
  | .msg_queue_put_simple3 what arg1 arg2 _ => some ⟨what, arg1, arg2, none, false⟩
  | .msg_queue_put_simple4 what arg1 arg2 obj _ => some ⟨what, arg1, arg2, some obj, true⟩
  | .msg_queue_start _ => some ⟨FFP_MSG_FLUSH, 0, 0, none, false⟩
  | _ => none

def Call.isFlush : Call ω → Bool
  | .msg_queue_flush => true
  | _ => false

/-- The call takes messages out that it does not return. -/
def Call.drops : Call ω → Bool
  | .msg_queue_flush => true
  | .msg_queue_remove _ => true
  | _ => false

abbrev Log (ω : Type*) := List (Call ω × Outcome ω)

namespace Log

def given (log : Log ω) : List (AVMessage ω) := log.filterMap fun a => a.1.msg?

def accepted (log : Log ω) : List (AVMessage ω) := log.filterMap fun a => if a.2.got.ok then a.1.msg? else none

def refused (log : Log ω) : List (AVMessage ω) := log.filterMap fun a => if a.2.got.ok then none else a.1.msg?

def got (log : Log ω) : List (AVMessage ω) := log.filterMap fun a => a.2.got.msg?

def freed (log : Log ω) : List ω := log.flatMap fun a => a.2.freed

variable (log : Log ω) (a : Call ω) (out : Outcome ω)

@[simp] theorem given_concat : given (log ++ [(a, out)]) = log.given ++ a.msg?.toList := Trace.filterMap_concat ..

@[simp] theorem accepted_concat :
    accepted (log ++ [(a, out)]) = log.accepted ++ (if out.got.ok then a.msg? else none).toList :=
      Trace.filterMap_concat ..

@[simp] theorem refused_concat :
    refused (log ++ [(a, out)]) = log.refused ++ (if out.got.ok then none else a.msg?).toList :=
      Trace.filterMap_concat ..

@[simp] theorem got_concat : got (log ++ [(a, out)]) = log.got ++ out.got.msg?.toList := Trace.filterMap_concat ..

@[simp] theorem freed_concat : freed (log ++ [(a, out)]) = log.freed ++ out.freed := by
  rw [freed, List.flatMap_append, List.flatMap_singleton, freed]

end Log

def objs (msgs : List (AVMessage ω)) : List ω := msgs.filterMap (·.obj)

theorem objs_append (l r : List (AVMessage ω)) : objs (l ++ r) = objs l ++ objs r := List.filterMap_append

theorem objs_dropObj (l : List (AVMessage ω)) : objs (l.map AVMessage.dropObj) = [] := by
  induction l with
  | nil => rfl
  | cons msg l ih => exact ih

theorem objs_reverse (l : List (AVMessage ω)) : objs l.reverse = (objs l).reverse := List.filterMap_reverse

namespace Contents

variable {c : Contents ω}

/-- All calls that put a message go the same way. -/
theorem call_msg {a : Call ω} {msg : AVMessage ω} (ha : a.msg? = some msg) (c : Contents ω) :
    ∃ allocated abort_request,
      c.call a = ((put { c with abort_request := abort_request } msg allocated).1,
        ⟨.ret (put { c with abort_request := abort_request } msg allocated).2, []⟩) := by
  cases a with
  | msg_queue_put_simple1 what allocated => cases ha; exact ⟨allocated, c.abort_request, rfl⟩
  | msg_queue_put_simple2 what arg1 allocated => cases ha; exact ⟨allocated, c.abort_request, rfl⟩
  | msg_queue_put_simple3 what arg1 arg2 allocated => cases ha; exact ⟨allocated, c.abort_request, rfl⟩
  | msg_queue_put_simple4 what arg1 arg2 obj allocated => cases ha; exact ⟨allocated, c.abort_request, rfl⟩
  | msg_queue_start allocated => cases ha; exact ⟨allocated, false, rfl⟩
  | msg_queue_flush => cases ha
  | msg_queue_abort => cases ha
  | msg_queue_get block => cases ha
  | msg_queue_remove what => cases ha

/-- What a call does to the two lists. -/
inductive Moves (c c' : Contents ω) (a : Call ω) : Outcome ω → Prop where
  | refuse (msg : AVMessage ω) (put : a.msg? = some msg) (msgs : c'.msgs = c.msgs) (stale : c'.stale = c.stale) :
      Moves c c' a ⟨.ret (-1), []⟩
  | put (msg : AVMessage ω) (put : a.msg? = some msg) (msgs : c'.msgs = c.msgs ++ [msg])
      (stale : c'.stale = c.stale.tail) : Moves c c' a ⟨.ret 0, []⟩
  | idle (got : Got ω) (put : a.msg? = none) (msg : got.msg? = none) (msgs : c'.msgs = c.msgs)
      (stale : c'.stale = c.stale) : Moves c c' a ⟨got, []⟩
  | get (msg : AVMessage ω) (put : a.msg? = none) (msgs : c.msgs = msg :: c'.msgs)
      (stale : c'.stale = msg.dropObj :: c.stale) : Moves c c' a ⟨.msg msg, []⟩
  | flush (flush : a.isFlush = true) (msgs : c'.msgs = []) (stale : c'.stale = c.msgs.reverse ++ c.stale) :
      Moves c c' a ⟨.ret 0, []⟩
  | remove (what : ℤ) (remove : a = .msg_queue_remove what)
      (msgs : c'.msgs = c.msgs.filter fun msg => !decide (msg.what = what))
      (stale : c'.stale =
        ((c.msgs.filter fun msg => decide (msg.what = what)).map AVMessage.dropObj).reverse ++ c.stale) :
      Moves c c' a ⟨.ret 0, objs (c.msgs.filter fun msg => decide (msg.what = what))⟩

theorem moves (c : Contents ω) (a : Call ω) : Moves c (c.call a).1 a (c.call a).2 := by
  cases hmsg : a.msg? with
  | some msg =>
      obtain ⟨allocated, abort_request, hcall⟩ := call_msg hmsg c
      rw [hcall, Contents.put]
      split
      · exact .refuse msg hmsg rfl rfl
      · exact .put msg hmsg rfl rfl
  | none =>
      cases a with
      | msg_queue_flush => exact .flush rfl rfl rfl
      | msg_queue_abort => exact .idle _ rfl rfl rfl rfl
      | msg_queue_get block =>
          simp only [call, Contents.get]
          split
          · exact .idle _ rfl rfl rfl rfl
          · split
            · cases block with
              | true => exact .idle _ rfl rfl rfl rfl
              | false => exact .idle _ rfl rfl rfl rfl
            · exact .get _ rfl ‹_› rfl
      | msg_queue_remove what =>
          simp only [call, Contents.remove]
          split
          · exact .idle _ rfl rfl rfl rfl
          · exact .remove what rfl rfl rfl
      | msg_queue_put_simple1 what allocated => cases hmsg
      | msg_queue_put_simple2 what arg1 allocated => cases hmsg
      | msg_queue_put_simple3 what arg1 arg2 allocated => cases hmsg
      | msg_queue_put_simple4 what arg1 arg2 obj allocated => cases hmsg
      | msg_queue_start allocated => cases hmsg

end Contents

/-! ## Order -/

/-- The messages that have been returned and those that wait are taken ones in the order in which they were taken, and
all of them where no call drops messages. -/
structure InOrder (log : Log ω) (c : Contents ω) : Prop where
  sublist : (log.got ++ c.msgs).Sublist log.accepted
  all : (∀ a ∈ log, a.1.drops = false) → log.got ++ c.msgs = log.accepted

theorem InOrder.step {log : Log ω} {c : Contents ω} (h : InOrder log c) (a : Call ω) :
    InOrder (log ++ [(a, (c.call a).2)]) (c.call a).1 := by
  have hmoves := c.moves a
  have hold : (∀ b ∈ log ++ [(a, (c.call a).2)], b.1.drops = false) →
      (∀ b ∈ log, b.1.drops = false) ∧ a.drops = false :=
    fun hd => ⟨fun b hb => hd b (List.mem_append_left _ hb), hd (a, (c.call a).2) (by simp)⟩
  generalize (c.call a).1 = c', (c.call a).2 = out at hmoves hold ⊢
  cases hmoves with
  | refuse msg hput hmsgs hstale =>
      have hsame : Log.accepted (log ++ [(a, ⟨.ret (-1), []⟩)]) = log.accepted := by simp [Got.ok]
      refine ⟨?_, fun hd => ?_⟩
      · simpa [hmsgs, hsame, Got.msg?] using h.sublist
      · simpa [hmsgs, hsame, Got.msg?] using h.all (hold hd).1
  | put msg hput hmsgs hstale =>
      have hnew : Log.accepted (log ++ [(a, ⟨.ret 0, []⟩)]) = log.accepted ++ [msg] := by simp [Got.ok, hput]
      refine ⟨?_, fun hd => ?_⟩
      · simpa [hmsgs, hnew, Got.msg?, ← List.append_assoc] using h.sublist.append_right [msg]
      · rw [hnew, ← h.all (hold hd).1, hmsgs]
        simp [Got.msg?]
  | idle got hput hmsg hmsgs hstale =>
      have hsame : Log.accepted (log ++ [(a, ⟨got, []⟩)]) = log.accepted := by simp [hput]
      refine ⟨?_, fun hd => ?_⟩
      · simpa [hmsgs, hsame, hmsg] using h.sublist
      · simpa [hmsgs, hsame, hmsg] using h.all (hold hd).1
  | get msg hput hmsgs hstale =>
      have hsame : Log.accepted (log ++ [(a, ⟨.msg msg, []⟩)]) = log.accepted := by simp [hput]
      refine ⟨?_, fun hd => ?_⟩
      · simpa [hmsgs, hsame, Got.msg?] using h.sublist
      · simpa [hmsgs, hsame, Got.msg?] using h.all (hold hd).1
  | flush hflush hmsgs hstale =>
      have hdrops : a.drops = true ∧ a.msg? = none := by
        cases a with
        | msg_queue_flush => exact ⟨rfl, rfl⟩
        | _ => cases hflush
      refine ⟨?_, fun hd => ?_⟩
      · simpa [hmsgs, hdrops.2, Got.msg?] using (List.sublist_append_left _ _).trans h.sublist
      · rw [(hold hd).2] at hdrops
        cases hdrops.1
  | remove what hremove hmsgs hstale =>
      subst hremove
      refine ⟨?_, fun hd => ?_⟩
      · have hsub := (List.filter_sublist (p := fun msg => !decide (msg.what = what)) (l := c.msgs)).append_left log.got
        simpa [hmsgs, Call.msg?, Got.msg?] using hsub.trans h.sublist
      · cases (hold hd).2

/-! ## Objects -/

/-- Each object that a call gave is at one place: with the caller that got its message, freed, in the queue, with a
node that is kept for reuse, or lost. -/
structure Placed (log : Log ω) (c : Contents ω) (lost : List ω) : Prop where
  perm : (objs log.given).Perm (objs log.got ++ log.freed ++ objs c.msgs ++ objs c.stale ++ lost)
  no_flush : (∀ a ∈ log, a.1.isFlush = false) → objs c.stale = [] ∧ lost = objs log.refused

def AllPlaced (log : Log ω) (c : Contents ω) : Prop := ∃ lost, Placed log c lost

theorem isFlush_concat {log : Log ω} {a : Call ω} {out : Outcome ω}
    (h : ∀ b ∈ log ++ [(a, out)], b.1.isFlush = false) : (∀ b ∈ log, b.1.isFlush = false) ∧ a.isFlush = false :=
  ⟨fun b hb => h b (List.mem_append_left _ hb), h (a, out) (by simp)⟩

theorem objs_parts (p : AVMessage ω → Bool) (l : List (AVMessage ω)) :
    (objs (l.filter p) ++ objs (l.filter fun msg => !p msg)).Perm (objs l) := by
  rw [← objs_append]
  exact (List.filter_append_perm p l).filterMap _

theorem Placed.step {log : Log ω} {c : Contents ω} {lost : List ω} (h : Placed log c lost) (a : Call ω) :
    ∃ lost', Placed (log ++ [(a, (c.call a).2)]) (c.call a).1 lost' := by
  classical
  have hcount := List.perm_iff_count.mp h.perm
  simp only [List.count_append] at hcount
  have hmoves := c.moves a
  generalize (c.call a).1 = c', (c.call a).2 = out at hmoves ⊢
  cases hmoves with
  | refuse msg hput hmsgs hstale =>
      refine ⟨lost ++ objs [msg], List.perm_iff_count.mpr fun o => ?_, fun hf => ?_⟩
      · have hold := hcount o
        simp only [hput, hmsgs, hstale, Log.given_concat, Log.got_concat, Log.freed_concat, objs_append, Got.msg?,
          Option.toList, List.append_nil, List.count_append]
        omega
      · obtain ⟨hs, hl⟩ := h.no_flush (isFlush_concat hf).1
        simp [hstale, hs, hl, hput, Got.ok, objs_append]
  | put msg hput hmsgs hstale =>
      have hhead : objs c.stale = objs (c.stale.take 1) ++ objs c.stale.tail := by
        rw [← objs_append, ← List.drop_one, List.take_append_drop]
      -- what the node still held is lost
      refine ⟨lost ++ objs (c.stale.take 1), List.perm_iff_count.mpr fun o => ?_, fun hf => ?_⟩
      · have hold := hcount o
        rw [hhead, List.count_append] at hold
        simp only [hput, hmsgs, hstale, Log.given_concat, Log.got_concat, Log.freed_concat, objs_append, Got.msg?,
          Option.toList, List.append_nil, List.count_append]
        omega
      · obtain ⟨hs, hl⟩ := h.no_flush (isFlush_concat hf).1
        rw [hhead, List.append_eq_nil_iff] at hs
        exact ⟨hstale ▸ hs.2, by simp [hs.1, hl, Got.ok]⟩
  | idle got hput hmsg hmsgs hstale =>
      refine ⟨lost, List.perm_iff_count.mpr fun o => ?_, fun hf => ?_⟩
      · have hold := hcount o
        simp only [hput, hmsg, hmsgs, hstale, Log.given_concat, Log.got_concat, Log.freed_concat, Option.toList,
          List.append_nil, List.count_append]
        omega
      · obtain ⟨hs, hl⟩ := h.no_flush (isFlush_concat hf).1
        simp [hstale, hs, hl, hput]
  | get msg hput hmsgs hstale =>
      have hcons : objs c.msgs = objs [msg] ++ objs c'.msgs := by rw [hmsgs, ← objs_append, List.singleton_append]
      have hdrop : objs c'.stale = objs c.stale := by rw [hstale]; rfl
      refine ⟨lost, List.perm_iff_count.mpr fun o => ?_, fun hf => ?_⟩
      · have hold := hcount o
        rw [hcons, List.count_append] at hold
        simp only [hput, hdrop, Log.given_concat, Log.got_concat, Log.freed_concat, objs_append, Got.msg?,
          Option.toList, List.append_nil, List.count_append]
        omega
      · obtain ⟨hs, hl⟩ := h.no_flush (isFlush_concat hf).1
        exact ⟨hdrop.trans hs, by simp [hl, hput]⟩
  | flush hflush hmsgs hstale =>
      have hput : a.msg? = none := by
        cases a with
        | msg_queue_flush => rfl
        | _ => cases hflush
      refine ⟨lost, List.perm_iff_count.mpr fun o => ?_, fun hf => ?_⟩
      · have hold := hcount o
        simp only [hput, hmsgs, hstale, Log.given_concat, Log.got_concat, Log.freed_concat, objs_append, objs_reverse,
          Got.msg?, Option.toList, List.append_nil, List.count_append, List.count_reverse]
        change _ = _ + List.count o [] + _ + _
        rw [List.count_nil]
        omega
      · rw [(isFlush_concat hf).2] at hflush
        cases hflush
  | remove what hremove hmsgs hstale =>
      subst hremove
      have hparts := fun o => (objs_parts (fun msg => decide (msg.what = what)) c.msgs).count_eq o
      have hdrop : objs c'.stale = objs c.stale := by
        rw [hstale, objs_append, ← List.map_reverse, objs_dropObj, List.nil_append]
      refine ⟨lost, List.perm_iff_count.mpr fun o => ?_, fun hf => ?_⟩
      · have hold := hcount o
        have hsplit := hparts o
        rw [List.count_append] at hsplit
        simp only [hdrop, hmsgs, Call.msg?, Log.given_concat, Log.got_concat, Log.freed_concat, Got.msg?,
          Option.toList, List.append_nil, List.count_append]
        omega
      · obtain ⟨hs, hl⟩ := h.no_flush (isFlush_concat hf).1
        exact ⟨hdrop.trans hs, by simp [hl, Call.msg?]⟩

/-! ## destroy -/

theorem Models.destroy {q : MessageQueue ω} {c : Contents ω} (h : q.Models c) :
    ∃ q', q.msg_queue_destroy = some (q', objs c.flush.stale) ∧ ∀ a, Linked.read q'.list.heap a = none := by
  obtain ⟨q₁, hflush, ⟨cells, spares, hholds, hmsgs, hstale⟩, _, _, howned⟩ := h.flush
  obtain rfl : cells = [] := List.map_eq_nil_iff.mp hmsgs
  obtain ⟨list, hfree, _, hgone⟩ := hholds.free
  refine ⟨{ q₁ with list := list }, ?_, hgone⟩
  rw [msg_queue_destroy, hflush]
  simp only [hfree]
  rw [hstale, AVMessage.freeAll_owned fun msg hmsg => howned msg (List.mem_append_right _ hmsg)]
  rfl

/-- The calls return what the lists give, and the messages come in the order in which they were put. -/
theorem messages_in_order (calls : List (Call ω)) :
    ∃ q log c, Trace.run call msg_queue_init calls = some (q, log) ∧ q.Models c ∧
      (Log.got log ++ c.msgs).Sublist (Log.accepted log) ∧
      ((∀ a ∈ calls, a.drops = false) → Log.got log ++ c.msgs = Log.accepted log) := by
  obtain ⟨q, hrun, hmodels⟩ := follows.run Models.init calls
  have hnil : InOrder [] (.empty : Contents ω) := ⟨.slnil, fun _ => rfl⟩
  have horder := Trace.go_invariant hnil (fun _ _ a h => h.step a) calls
  have hinputs := Trace.inputs_go Contents.call .empty calls
  refine ⟨q, _, _, hrun, hmodels, horder.sublist, fun hd => horder.all fun a ha => hd _ ?_⟩
  rw [← hinputs]
  exact List.mem_map_of_mem ha

/-- Each object is returned with its message, freed once, or lost; without a flush only the objects of refused messages
are lost. Afterwards no node is allocated. -/
theorem objects_once (calls : List (Call ω)) :
    ∃ q log q' freed lost, Trace.run call msg_queue_init calls = some (q, log) ∧
      q.msg_queue_destroy = some (q', freed) ∧ (∀ a, Linked.read q'.list.heap a = none) ∧
      (objs (Log.given log)).Perm (objs (Log.got log) ++ Log.freed log ++ freed ++ lost) ∧
      ((∀ a ∈ calls, a.isFlush = false) → lost = objs (Log.refused log)) := by
  obtain ⟨q, hrun, hmodels⟩ := follows.run Models.init calls
  obtain ⟨q', hdestroy, hgone⟩ := hmodels.destroy
  have hnil : AllPlaced [] (.empty : Contents ω) := ⟨[], .nil, fun _ => ⟨rfl, rfl⟩⟩
  obtain ⟨lost, hplaced⟩ := Trace.go_invariant hnil (fun _ _ a ⟨_, h⟩ => h.step a) calls
  have hinputs := Trace.inputs_go Contents.call .empty calls
  refine ⟨q, _, q', _, lost, hrun, hdestroy, hgone, hplaced.perm.trans ?_,
    fun hf => (hplaced.no_flush fun a ha => hf _ ?_).2⟩
  · refine List.Perm.append_right _ ?_
    rw [List.append_assoc, Contents.flush, objs_append, objs_reverse]
    exact ((List.reverse_perm _).symm.append_right _).append_left _
  · rw [← hinputs]
    exact List.mem_map_of_mem ha

end MessageQueue

end MyDemo.Ijkmedia
