import MyDemo.Bluetooth.Lemmas.Register
import MyDemo.Lib.Transition

/-!
# The service before and after `stop`

`Watch` adds to the service what a caller of `stop` remembers: the service as `stop` left it, until the
next `start` or `connect`.
-/

namespace MyDemo.Bluetooth

structure Watch where
  service : Except Exn Service
  stopped : Option Service

def Watch.new : Watch := ⟨.ok Service.new, none⟩

def watchStep (w : Watch) (a : Action) : Option Watch :=
  (step w.service a).map fun service => {
    service
    stopped := match a with
      | .stop => service.toOption
      | .start | .connect => none
      | _ => w.stopped }

structure Service.AllCancelled (s : Service) : Prop where
  accept : ∀ (i : ℕ) (t : AcceptThread), s.acceptThreads[i]? = some t → t.cancelled = true
  connect : ∀ (i : ℕ) (t : ConnectThread), s.connectThreads[i]? = some t → t.pc = .finished ∨ t.cancelled = true
  connected : ∀ (i : ℕ) (t : ConnectedThread), s.connectedThreads[i]? = some t → t.cancelled = true

/-- No exception; and after a `stop`, until the next `start` or `connect`, the state is `STATE_NONE`,
no connection has been created, and every thread is cancelled. -/
def Lifecycle (w : Watch) : Prop :=
  ∃ s, w.service = .ok s ∧ ∀ s₀, w.stopped = some s₀ →
    s.mState = .none ∧ s.connectedThreads.length = s₀.connectedThreads.length ∧ s.AllCancelled

/-- All threads but the slot's are cancelled or finished already. -/
structure Service.StopReaches (s : Service) : Prop where
  connect : ∀ (i : ℕ) (t : ConnectThread), s.connectThreads[i]? = some t → t.pc = .finished ∨ t.cancelled = true
  connected : ∀ (i : ℕ) (t : ConnectedThread), s.connectedThreads[i]? = some t → t.cancelled = true ∨ s.current = some i

/-- The actions that keep the service in its lifecycle. -/
def Service.KeepsLifecycle (s : Service) (stopped : Option Service) : Action → Prop
  | .start | .connectReturns _ => True
  | .connect | .connected | .callConnected _ => s.mConnectedThread ≠ none
  | .stop => (s.mConnectedThread ≠ none → s.current ≠ none) ∧ s.StopReaches
  | .connectThrows _ | .callStart _ => stopped = none
  | .read _ p => p.result.isIOException = true → stopped = none

def KeepsLifecycle (w : Watch) (a : Action) : Prop :=
  ∀ s, w.service = .ok s → s.KeepsLifecycle w.stopped a

/-! ## What every run keeps -/

structure Service.Tracked (s : Service) : Prop where
  index : ∀ t ∈ s.connectThreads, t.index = 1
  accept : ∀ (i : ℕ) (t : AcceptThread), s.acceptThreads[i]? = some t → t.cancelled = true ∨ s.mAcceptThread = some i

def Watch.Tracked (w : Watch) : Prop :=
  ∀ s, w.service = .ok s → s.Tracked ∧ (w.stopped ≠ none → s.mConnectedThread = none)

namespace Service

variable {s : Service}

theorem dropAccept_cancels (h : s.Tracked) (i : ℕ) (t : AcceptThread)
    (ht : s.dropAccept.acceptThreads[i]? = some t) : t.cancelled = true := by
  unfold dropAccept at ht
  split at ht
  · next hnone =>
      rcases h.accept i t ht with hc | hc
      · exact hc
      · rw [hnone] at hc; cases hc
  · next j hj =>
      obtain ⟨d, hd, rfl⟩ := List.getElem?_modify_eq_some.mp ht
      split
      · rfl
      · next hij =>
          rcases h.accept i d hd with hc | hc
          · exact hc
          · rw [hj, Option.some.injEq] at hc; exact absurd hc hij

theorem Tracked.new : new.Tracked where
  index := by intro t ht; cases ht
  accept := by intro i t ht; cases ht

theorem Tracked.of_same {s' : Service} (h : s.Tracked) (hc : s'.connectThreads = s.connectThreads)
    (ha : s'.acceptThreads = s.acceptThreads) (hm : s'.mAcceptThread = s.mAcceptThread) :
    s'.Tracked :=
  ⟨hc ▸ h.index, ha ▸ hm ▸ h.accept⟩

theorem Tracked.setPc (h : s.Tracked) (i : ℕ) (pc : ConnectPc) : (s.setPc i pc).Tracked :=
  ⟨List.forall_mem_modify (fun _ ht => ht) h.index, h.accept⟩

theorem Tracked.dropConnect (h : s.Tracked) : s.dropConnect.Tracked := by
  unfold Service.dropConnect
  split
  · exact h
  · exact ⟨List.forall_mem_modify (fun _ ht => ht) h.index, h.accept⟩

theorem Tracked.dropAccept (h : s.Tracked) : s.dropAccept.Tracked :=
  ⟨by simpa using h.index, fun i t ht => .inl (dropAccept_cancels h i t ht)⟩

theorem Tracked.start (h : s.Tracked) : s.start.Tracked := by
  have hd := h.dropConnect
  refine ⟨by simpa using hd.index, ?_⟩
  intro i t ht
  simp only [Service.start, setState, openAccept] at ht ⊢
  cases hm : s.dropConnect.mAcceptThread with
  | some j => simp only [hm] at ht ⊢; exact hm ▸ hd.accept i t ht
  | none =>
      simp only [hm] at ht ⊢
      rcases List.getElem?_concat_eq_some.mp ht with ht | ⟨rfl, _⟩
      · rcases hd.accept i t ht with hc | hc
        · exact .inl hc
        · rw [hm] at hc; cases hc
      · exact .inr rfl

theorem Tracked.connect (h : s.Tracked) {s' : Service} (hok : s.connect 1 = .ok s') :
    s'.Tracked ∧ s.mConnectedThread ≠ none := by
  rcases s.slots_cases with hd | ⟨slot, hd⟩
  · rw [connect_discarded hd] at hok; cases hok
  · rw [connect_slots hd] at hok
    cases hok
    refine ⟨⟨fun t ht => ?_, h.accept⟩, by simp [hd]⟩
    rcases List.mem_append.mp ht with ht | ht
    · exact h.index t ht
    · rw [List.mem_singleton.mp ht]

theorem Tracked.connected (h : s.Tracked) {s' : Service} (hok : s.connected 1 = .ok s') :
    s'.Tracked ∧ s.mConnectedThread ≠ none := by
  rcases s.slots_cases with hd | ⟨slot, hd⟩
  · rw [connected_discarded hd] at hok; cases hok
  · rw [connected_slots hd] at hok
    cases hok
    exact ⟨h.dropConnect.dropAccept.of_same rfl rfl rfl, by simp [hd]⟩

theorem Tracked.stop (h : s.Tracked) {s' : Service} (hok : s.stop = .ok s') :
    s'.Tracked ∧ s'.mConnectedThread = none := by
  rcases s.slots_cases with hd | ⟨slot, hd⟩
  · rw [stop_discarded hd] at hok
    cases hok
    exact ⟨h.dropAccept.of_same rfl rfl rfl, by simp [setState, hd]⟩
  · cases slot with
    | none => rw [stop_empty hd] at hok; cases hok
    | some t =>
        rw [stop_slots hd] at hok
        cases hok
        exact ⟨h.dropAccept.of_same rfl rfl rfl, rfl⟩

theorem Tracked.act (h : s.Tracked) {a : Action} {s' : Service} (hs : s.act a = some (.ok s')) :
    s'.Tracked ∧ (s.mConnectedThread = none ∨ a = .stop → s'.mConnectedThread = none) := by
  cases a with
  | start => cases hs; exact ⟨h.start, by simp⟩
  | connect =>
      obtain ⟨ht, hne⟩ := h.connect (Option.some.inj hs)
      exact ⟨ht, by simp [hne]⟩
  | connected =>
      obtain ⟨ht, hne⟩ := h.connected (Option.some.inj hs)
      exact ⟨ht, by simp [hne]⟩
  | stop =>
      obtain ⟨ht, hnone⟩ := h.stop (Option.some.inj hs)
      exact ⟨ht, fun _ => hnone⟩
  | connectReturns i =>
      simp only [Service.act] at hs
      split at hs
      · cases hs; exact ⟨(h.setPc i _).of_same rfl rfl rfl, by simp [Service.setPc]⟩
      · cases hs
  | callConnected i =>
      simp only [Service.act] at hs
      split at hs
      · next index c hi =>
          obtain rfl : index = 1 := h.index _ (List.mem_of_getElem? hi)
          simp only [Option.some.injEq] at hs
          obtain ⟨ht, hne⟩ := (h.setPc i .finished).connected hs
          exact ⟨ht, by simp [show s.mConnectedThread ≠ none from hne]⟩
      · cases hs
  | connectThrows i =>
      simp only [Service.act] at hs
      split at hs
      · cases hs
        exact ⟨(h.setPc i _).of_same rfl rfl rfl, by simp [connectionFailed, setState, Service.setPc]⟩
      · cases hs
  | callStart i =>
      simp only [Service.act] at hs
      split at hs
      · cases hs; exact ⟨(h.setPc i _).start, by simp [Service.setPc]⟩
      · cases hs
  | read i p =>
      simp only [Service.act] at hs
      split at hs
      · cases hs
        split
        · exact ⟨h.of_same rfl rfl rfl, by simp [connectionLost, setState, addPass]⟩
        · exact ⟨h.of_same rfl rfl rfl, by simp [addPass]⟩
      · cases hs

end Service

theorem Watch.Tracked.new : Watch.new.Tracked := by
  intro s hs
  cases hs
  exact ⟨Service.Tracked.new, by simp [Watch.new]⟩

theorem Watch.Tracked.step {w w' : Watch} {a : Action} (h : w.Tracked)
    (hw : watchStep w a = some w') : w'.Tracked := by
  obtain ⟨v, hv, rfl⟩ := Option.map_eq_some_iff.mp hw
  intro s' hs'
  cases hv' : w.service with
  | error e => rw [hv'] at hv; cases hv
  | ok s =>
      obtain ⟨hT, hdis⟩ := h s hv'
      simp only at hs'
      rw [hv', hs'] at hv
      obtain ⟨hT', hdis'⟩ := hT.act hv
      refine ⟨hT', fun hne => hdis' ?_⟩
      cases a with
      | stop => exact .inr rfl
      | start | connect => exact absurd rfl hne
      | _ => exact .inl (hdis hne)

/-! ## Which actions keep the lifecycle -/

namespace Service

variable {s : Service}

theorem allCancelled_stop_discarded (h : s.Tracked) (hd : s.mConnectedThread = none) :
    (s.dropAccept.setState .none).AllCancelled ↔ s.StopReaches := by
  have hcur := current_of_discarded hd
  constructor
  · intro hall
    exact ⟨by simpa [setState] using hall.connect,
      fun i t ht => .inl (hall.connected i t (by simpa [setState] using ht))⟩
  · intro hreach
    refine ⟨dropAccept_cancels h, by simpa [setState] using hreach.connect, ?_⟩
    intro i t ht
    rcases hreach.connected i t (by simpa [setState] using ht) with hc | hc
    · exact hc
    · rw [hcur] at hc; cases hc

theorem allCancelled_stop_slots (h : s.Tracked) {t : ℕ} (hd : s.mConnectedThread = some #v[some t]) :
    AllCancelled { s.dropAccept with
      mState := .none
      mConnectedThread := none
      connectedThreads := cancelSlot (some t) s.connectedThreads } ↔ s.StopReaches := by
  have hcur := current_of_slots hd
  constructor
  · intro hall
    refine ⟨by simpa using hall.connect, ?_⟩
    intro i c hc
    by_cases hti : t = i
    · exact .inr (hcur.trans (congrArg some hti))
    · exact .inl (hall.connected i c (List.getElem?_modify_eq_some.mpr ⟨c, hc, by simp [hti]⟩))
  · intro hreach
    refine ⟨dropAccept_cancels h, by simpa using hreach.connect, ?_⟩
    intro i c hc
    obtain ⟨d, hd', rfl⟩ := List.getElem?_modify_eq_some.mp hc
    split
    · rfl
    · next hti =>
        rcases hreach.connected i d hd' with hdc | hdc
        · exact hdc
        · rw [hcur, Option.some.injEq] at hdc; exact absurd hdc hti

theorem AllCancelled.connectReturns (h : s.AllCancelled) {i : ℕ} {t : ConnectThread}
    (ht : s.connectThreads[i]? = some t) (hpc : t.pc = .connecting) :
    AllCancelled { s.setPc i .beforeConnected with mConnectThread := none } := by
  refine ⟨h.accept, ?_, h.connected⟩
  intro j u hu
  obtain ⟨d, hd, rfl⟩ := List.getElem?_modify_eq_some.mp hu
  split
  · next hij =>
      subst hij
      rw [ht, Option.some.injEq] at hd
      subst hd
      rcases h.connect i t ht with hf | hc
      · rw [hpc] at hf; cases hf
      · exact .inr hc
  · exact h.connect j d hd

theorem AllCancelled.addPass (h : s.AllCancelled) (i : ℕ) (p : Pass) : (s.addPass i p).AllCancelled := by
  refine ⟨h.accept, h.connect, ?_⟩
  intro j u hu
  obtain ⟨d, hd, rfl⟩ := List.getElem?_modify_eq_some.mp hu
  have hdc := h.connected j d hd
  split <;> exact hdc

end Service

theorem lifecycle_error {e : Exn} {m : Option Service} : ¬ Lifecycle ⟨.error e, m⟩ := by
  rintro ⟨s, hs, _⟩; cases hs

theorem lifecycle_ok {s : Service} {m : Option Service} :
    Lifecycle ⟨.ok s, m⟩ ↔ ∀ s₀, m = some s₀ →
      s.mState = .none ∧ s.connectedThreads.length = s₀.connectedThreads.length ∧
        s.AllCancelled := by
  constructor
  · rintro ⟨_, hs, h⟩; cases hs; exact h
  · intro h; exact ⟨s, rfl, h⟩

theorem lifecycle_changed {s : Service} {m : Option Service} (h : s.mState ≠ .none) :
    Lifecycle ⟨.ok s, m⟩ ↔ m = none := by
  rw [lifecycle_ok]
  cases m with
  | none => simp
  | some s₀ => simp [h]

theorem lifecycle_connected {s : Service} {m : Option Service}
    (hdis : m ≠ none → s.mConnectedThread = none) {v : Except Exn Service}
    (hv : s.connected 1 = v) : Lifecycle ⟨v, m⟩ ↔ s.mConnectedThread ≠ none := by
  subst hv
  rcases s.slots_cases with hd | ⟨slot, hd⟩
  · simp [Service.connected_discarded hd, hd, lifecycle_error]
  · have hm : m = none := by
      by_contra hne
      rw [hdis hne] at hd; cases hd
    simp [Service.connected_slots hd, hd, hm, lifecycle_ok]

theorem lifecycle_stop {s : Service} (hT : s.Tracked) (m : Option Service) :
    Lifecycle ⟨s.stop, s.stop.toOption⟩ ↔ s.KeepsLifecycle m .stop := by
  rcases s.slots_cases with hd | ⟨slot, hd⟩
  · have hall := Service.allCancelled_stop_discarded hT hd
    simp only [Service.stop_discarded hd, Except.toOption, lifecycle_ok, Option.some.injEq, forall_eq',
      Service.KeepsLifecycle, hd, ne_eq, not_true_eq_false, IsEmpty.forall_iff, true_and]
    simpa [Service.setState] using hall
  · cases slot with
    | none =>
        simp [Service.stop_empty hd, hd, lifecycle_error, Service.KeepsLifecycle, Service.current_of_slots hd]
    | some t =>
        have hall := Service.allCancelled_stop_slots hT hd
        simp only [Service.stop_slots hd, Except.toOption, lifecycle_ok, Option.some.injEq, forall_eq',
          Service.KeepsLifecycle, Service.current_of_slots hd]
        simpa using hall

theorem lifecycle_step {w w' : Watch} {a : Action} (hT : w.Tracked) (hP : Lifecycle w)
    (hw : watchStep w a = some w') : Lifecycle w' ↔ KeepsLifecycle w a := by
  obtain ⟨v, m⟩ := w
  obtain ⟨s, rfl, hquiet⟩ := hP
  obtain ⟨hTs, hdis⟩ := hT s rfl
  obtain ⟨v', hv', rfl⟩ := Option.map_eq_some_iff.mp hw
  have hkeeps : KeepsLifecycle ⟨.ok s, m⟩ a ↔ s.KeepsLifecycle m a :=
    ⟨fun h => h s rfl, fun h s' hs' => by cases hs'; exact h⟩
  rw [hkeeps]
  cases a with
  | start => cases hv'; simp [lifecycle_ok, Service.KeepsLifecycle]
  | connect =>
      cases hv'
      rcases s.slots_cases with hd | ⟨slot, hd⟩
      · simp [Service.connect_discarded hd, hd, lifecycle_error, Service.KeepsLifecycle]
      · simp [Service.connect_slots hd, hd, lifecycle_ok, Service.KeepsLifecycle]
  | connected => cases hv'; exact lifecycle_connected hdis rfl
  | stop => cases hv'; exact lifecycle_stop hTs m
  | connectReturns i =>
      simp only [step, Service.act] at hv'
      split at hv'
      · next c ht =>
          cases hv'
          simp only [Service.KeepsLifecycle, iff_true, lifecycle_ok]
          intro s₀ hs₀
          obtain ⟨hst, hlen, hall⟩ := hquiet s₀ hs₀
          exact ⟨hst, hlen, hall.connectReturns ht rfl⟩
      · cases hv'
  | callConnected i =>
      simp only [step, Service.act] at hv'
      split at hv'
      · next index c ht =>
          obtain rfl : index = 1 := hTs.index _ (List.mem_of_getElem? ht)
          simp only [Option.some.injEq] at hv'
          have hdis' : m ≠ none → (s.setPc i .finished).mConnectedThread = none := hdis
          exact lifecycle_connected hdis' hv'
      · cases hv'
  | connectThrows i =>
      simp only [step, Service.act] at hv'
      split at hv'
      · cases hv'; exact lifecycle_changed (by simp [Service.connectionFailed, Service.setState])
      · cases hv'
  | callStart i =>
      simp only [step, Service.act] at hv'
      split at hv'
      · cases hv'; exact lifecycle_changed (by simp [Service.start, Service.setState])
      · cases hv'
  | read i p =>
      simp only [step, Service.act] at hv'
      split at hv'
      · cases hv'
        cases hp : p.result.isIOException with
        | true =>
            simp only [↓reduceIte, Service.KeepsLifecycle, hp, forall_const]
            exact lifecycle_changed (by simp [Service.connectionLost, Service.setState])
        | false =>
            simp only [Bool.false_eq_true, ↓reduceIte, Service.KeepsLifecycle, hp,
              IsEmpty.forall_iff, iff_true, lifecycle_ok]
            intro s₀ hs₀
            obtain ⟨hst, hlen, hall⟩ := hquiet s₀ hs₀
            exact ⟨hst, by simpa [Service.addPass] using hlen, hall.addPass i p⟩
      · cases hv'

end MyDemo.Bluetooth
