import MyDemo.Bluetooth.Service
import MyDemo.Lib.ListEntries

/-!
# What the synchronized operations compute

One equation for each way an operation can end. The service has one slot, so that its array is `#v[t]`
or has been discarded by `stop`.
-/

namespace MyDemo.Bluetooth

def cancelSlot (slot : Option ℕ) (threads : List ConnectedThread) : List ConnectedThread :=
  match slot with
  | none => threads
  | some t => threads.modify t fun c => { c with cancelled := true }

namespace Service

variable {s : Service}

theorem slots_cases (s : Service) :
    s.mConnectedThread = none ∨ ∃ slot, s.mConnectedThread = some #v[slot] := by
  cases h : s.mConnectedThread with
  | none => exact .inl rfl
  | some v =>
      match v with
      | ⟨⟨[slot]⟩, _⟩ => exact .inr ⟨slot, rfl⟩

theorem current_of_slots {slot : Option ℕ} (h : s.mConnectedThread = some #v[slot]) :
    s.current = slot := by
  simp only [current, h]; rfl

theorem current_of_discarded (h : s.mConnectedThread = none) : s.current = none := by
  simp only [current, h]; rfl

/-! ## Fields that `dropConnect` and `dropAccept` leave alone -/

@[simp] theorem dropConnect_mConnectedThread : s.dropConnect.mConnectedThread = s.mConnectedThread := by
  unfold dropConnect; split <;> rfl

@[simp] theorem dropConnect_connectedThreads : s.dropConnect.connectedThreads = s.connectedThreads := by
  unfold dropConnect; split <;> rfl

@[simp] theorem dropConnect_mAcceptThread : s.dropConnect.mAcceptThread = s.mAcceptThread := by
  unfold dropConnect; split <;> rfl

@[simp] theorem dropConnect_acceptThreads : s.dropConnect.acceptThreads = s.acceptThreads := by
  unfold dropConnect; split <;> rfl

@[simp] theorem dropAccept_mConnectedThread : s.dropAccept.mConnectedThread = s.mConnectedThread := by
  unfold dropAccept; split <;> rfl

@[simp] theorem dropAccept_connectedThreads : s.dropAccept.connectedThreads = s.connectedThreads := by
  unfold dropAccept; split <;> rfl

@[simp] theorem dropAccept_connectThreads : s.dropAccept.connectThreads = s.connectThreads := by
  unfold dropAccept; split <;> rfl

@[simp] theorem openAccept_mConnectedThread : s.openAccept.mConnectedThread = s.mConnectedThread := by
  unfold openAccept; split <;> rfl

@[simp] theorem openAccept_connectedThreads : s.openAccept.connectedThreads = s.connectedThreads := by
  unfold openAccept; split <;> rfl

@[simp] theorem openAccept_connectThreads : s.openAccept.connectThreads = s.connectThreads := by
  unfold openAccept; split <;> rfl

@[simp] theorem start_mConnectedThread : s.start.mConnectedThread = s.mConnectedThread := by
  simp [start, setState]

@[simp] theorem start_connectedThreads : s.start.connectedThreads = s.connectedThreads := by
  simp [start, setState]

@[simp] theorem start_connectThreads : s.start.connectThreads = s.dropConnect.connectThreads := by
  simp [start, setState]

/-! ## `connect` -/

theorem connect_discarded (h : s.mConnectedThread = none) : s.connect 1 = .error .nullPointer := by
  simp only [connect, getSlot, h]; rfl

theorem connect_slots {slot : Option ℕ} (h : s.mConnectedThread = some #v[slot]) :
    s.connect 1 = .ok { s with
      mState := .connecting
      mConnectThread := some s.connectThreads.length
      mConnectedThread := some #v[none]
      connectThreads := s.connectThreads ++ [⟨1, .connecting, false⟩]
      connectedThreads := cancelSlot slot s.connectedThreads } := by
  have hget : s.getSlot 1 = .ok slot := by simp only [getSlot, h]; rfl
  cases slot with
  | none =>
      obtain ⟨_, _, _, slots, _, _, _⟩ := s
      cases h
      simp only [connect, hget, bind, Except.bind]; rfl
  | some t =>
      have hset : (s.cancelConnected t).setSlot 1 none =
          .ok { s.cancelConnected t with mConnectedThread := some #v[none] } := by
        simp only [setSlot, cancelConnected, h]; rfl
      simp only [connect, hget, bind, Except.bind, hset]; rfl

/-! ## `connected` -/

theorem connected_discarded (h : s.mConnectedThread = none) :
    s.connected 1 = .error .nullPointer := by
  simp only [connected, setSlot, dropAccept_mConnectedThread, dropConnect_mConnectedThread, h]; rfl

theorem connected_slots {slot : Option ℕ} (h : s.mConnectedThread = some #v[slot]) :
    s.connected 1 = .ok { s.dropConnect.dropAccept with
      mState := .connected
      mConnectedThread := some #v[some s.connectedThreads.length]
      connectedThreads := s.connectedThreads ++ [⟨1, false, []⟩] } := by
  simp only [connected, setSlot, dropAccept_mConnectedThread, dropConnect_mConnectedThread,
    dropAccept_connectedThreads, dropConnect_connectedThreads, h]
  rfl

/-! ## `stop` -/

theorem stop_discarded (h : s.mConnectedThread = none) :
    s.stop = .ok (s.dropAccept.setState .none) := by
  simp only [stop, h]; rfl

theorem stop_empty (h : s.mConnectedThread = some #v[none]) : s.stop = .error .nullPointer := by
  simp only [stop, h]; rfl

theorem stop_slots {t : ℕ} (h : s.mConnectedThread = some #v[some t]) :
    s.stop = .ok { s.dropAccept with
      mState := .none
      mConnectedThread := none
      connectedThreads := cancelSlot (some t) s.connectedThreads } := by
  obtain ⟨_, accept, _, slots, _, _, _⟩ := s
  cases h
  cases accept with
  | none => rfl
  | some i => rfl

end Service

end MyDemo.Bluetooth
