import MyDemo.Bluetooth.Lemmas.Operations

/-!
# The service as a register of connections

What `mState` and the slot say about the connections needs only a few effects of the actions. A
`Register` is the service without the threads that set connections up; while the service is not
stopped, it follows the register (`Refines.act`).
-/

namespace MyDemo.Bluetooth

structure Register where
  mState : State
  slot : Option ℕ
  threads : List ConnectedThread

inductive Effect where
  | none
  | listen
  | dial
  | attach
  | read (i : ℕ) (p : Pass)

namespace Register

def new : Register := ⟨.none, none, []⟩

def apply (r : Register) : Effect → Register
  | .none => r
  | .listen => { r with mState := .listen }
  | .dial => ⟨.connecting, none, cancelSlot r.slot r.threads⟩
  | .attach => ⟨.connected, some r.threads.length, r.threads ++ [⟨1, false, []⟩]⟩
  | .read i p => {
      mState := if p.result.isIOException then .listen else r.mState
      slot := r.slot
      threads := r.threads.modify i fun c => { c with passes := c.passes ++ [p] } }

end Register

def Action.effect : Action → Effect
  | .start | .connectThrows _ | .callStart _ => .listen
  | .connect => .dial
  | .connected | .callConnected _ => .attach
  | .stop | .connectReturns _ => .none
  | .read i p => .read i p

/-- `s` is not stopped, and `r` is its state, its slot and its connected threads. -/
structure Refines (s : Service) (r : Register) : Prop where
  mState : s.mState = r.mState
  slots : s.mConnectedThread = some #v[r.slot]
  threads : s.connectedThreads = r.threads
  index : ∀ t ∈ s.connectThreads, t.index = 1

theorem Refines.new : Refines Service.new Register.new where
  mState := rfl
  slots := rfl
  threads := rfl
  index := by intro t ht; cases ht

theorem Refines.current {s : Service} {r : Register} (h : Refines s r) : s.current = r.slot :=
  Service.current_of_slots h.slots

/-! ## Every action follows its effect -/

section
variable {s : Service} {r : Register} (h : Refines s r)

include h in
theorem Refines.index_dropConnect : ∀ t ∈ s.dropConnect.connectThreads, t.index = 1 := by
  unfold Service.dropConnect
  split
  · exact h.index
  · exact List.forall_mem_modify (fun _ ht => ht) h.index

include h in
theorem Refines.setPc (i : ℕ) (pc : ConnectPc) : Refines (s.setPc i pc) r :=
  ⟨h.mState, h.slots, h.threads, List.forall_mem_modify (fun _ ht => ht) h.index⟩

include h in
theorem Refines.start : Refines s.start (r.apply .listen) :=
  ⟨rfl, Service.start_mConnectedThread.trans h.slots, Service.start_connectedThreads.trans h.threads,
    Service.start_connectThreads ▸ h.index_dropConnect⟩

include h in
theorem Refines.connect : ∃ s', s.connect 1 = .ok s' ∧ Refines s' (r.apply .dial) := by
  refine ⟨_, Service.connect_slots h.slots, rfl, rfl, congrArg (cancelSlot r.slot) h.threads, ?_⟩
  intro t ht
  rcases List.mem_append.mp ht with ht | ht
  · exact h.index t ht
  · rw [List.mem_singleton.mp ht]

include h in
theorem Refines.connected : ∃ s', s.connected 1 = .ok s' ∧ Refines s' (r.apply .attach) := by
  refine ⟨_, Service.connected_slots h.slots, rfl, by rw [h.threads]; rfl, by rw [h.threads]; rfl, ?_⟩
  simpa using h.index_dropConnect

end

/-- While the service is not stopped, an action does to it what its effect does to the register. -/
theorem Refines.act {s : Service} {r : Register} (h : Refines s r) {a : Action} (ha : a ≠ .stop)
    {w : Except Exn Service} (hw : s.act a = some w) :
    ∃ s', w = .ok s' ∧ Refines s' (r.apply a.effect) := by
  cases a with
  | stop => exact absurd rfl ha
  | start => cases hw; exact ⟨_, rfl, h.start⟩
  | connect =>
      obtain ⟨s', hs', hr⟩ := h.connect
      cases hw; exact ⟨s', hs', hr⟩
  | connected =>
      obtain ⟨s', hs', hr⟩ := h.connected
      cases hw; exact ⟨s', hs', hr⟩
  | connectReturns i =>
      simp only [Service.act] at hw
      split at hw
      · cases hw
        have hp := h.setPc i .beforeConnected
        exact ⟨_, rfl, hp.mState, hp.slots, hp.threads, hp.index⟩
      · cases hw
  | callConnected i =>
      simp only [Service.act] at hw
      split at hw
      · next index c ht =>
          have hi : index = 1 := h.index _ (List.mem_of_getElem? ht)
          obtain ⟨s', hs', hr⟩ := (h.setPc i .finished).connected
          cases hw; exact ⟨s', hi ▸ hs', hr⟩
      · cases hw
  | connectThrows i =>
      simp only [Service.act] at hw
      split at hw
      · cases hw
        have hp := h.setPc i .beforeStart
        exact ⟨_, rfl, rfl, hp.slots, hp.threads, hp.index⟩
      · cases hw
  | callStart i =>
      simp only [Service.act] at hw
      split at hw
      · cases hw; exact ⟨_, rfl, (h.setPc i .finished).start⟩
      · cases hw
  | read i p =>
      simp only [Service.act] at hw
      split at hw
      · cases hw
        have hthreads : (s.addPass i p).connectedThreads = (r.apply (.read i p)).threads := by
          simp only [Service.addPass, h.threads]; rfl
        refine ⟨_, rfl, ?_⟩
        cases hp : p.result.isIOException with
        | true => exact ⟨by simp [Register.apply, Action.effect, hp]; rfl, h.slots, hthreads, h.index⟩
        | false =>
            exact ⟨by simp [Register.apply, Action.effect, hp]; exact h.mState, h.slots, hthreads,
              h.index⟩
      · cases hw

end MyDemo.Bluetooth
