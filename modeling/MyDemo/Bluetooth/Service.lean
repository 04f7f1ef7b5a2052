import MyDemo.Bluetooth.Decoder

/-!
# The connection states of `BluetoothService`

The threads of the service run concurrently, and only the `synchronized` sections order them. An action
is one such section, or a call into the socket together with the section that its answer leads to; a
run of the service is any list of actions. Thread objects are named by their order of creation.
-/

namespace MyDemo.Bluetooth

inductive State where
  | none
  | listen
  | connecting
  | connected
  deriving DecidableEq

/-- The place in `ConnectThread.run`: in `mmSocket.connect()`, before the call of `connected` or of
`start`, or past the end. -/
inductive ConnectPc where
  | connecting
  | beforeConnected
  | beforeStart
  | finished
  deriving DecidableEq

structure ConnectThread where
  index : ℕ
  pc : ConnectPc
  cancelled : Bool

structure ConnectedThread where
  index : ℕ
  cancelled : Bool
  passes : List Pass

structure AcceptThread where
  cancelled : Bool

def ReadResult.isIOException : ReadResult → Bool
  | .ioException => true
  | _ => false

def ConnectedThread.readFailed (t : ConnectedThread) : Bool :=
  t.passes.any fun p => p.result.isIOException

abbrev senseorNum : ℕ := 1

/-- The fields of the service, and every thread it has created. `cancelled` is what `cancel()` does to
a thread: it closes the socket. -/
structure Service where
  mState : State
  mAcceptThread : Option ℕ
  mConnectThread : Option ℕ
  mConnectedThread : Option (Vector (Option ℕ) senseorNum)
  acceptThreads : List AcceptThread
  connectThreads : List ConnectThread
  connectedThreads : List ConnectedThread

namespace Service

def new : Service where
  mState := .none
  mAcceptThread := none
  mConnectThread := none
  mConnectedThread := some (Vector.replicate senseorNum none)
  acceptThreads := []
  connectThreads := []
  connectedThreads := []

def setState (s : Service) (state : State) : Service := { s with mState := state }

/-! ## `cancel()` of the three kinds of threads -/

def cancelAccept (s : Service) (i : ℕ) : Service :=
  { s with acceptThreads := s.acceptThreads.modify i fun t => { t with cancelled := true } }

def cancelConnect (s : Service) (i : ℕ) : Service :=
  { s with connectThreads := s.connectThreads.modify i fun t => { t with cancelled := true } }

def cancelConnected (s : Service) (i : ℕ) : Service :=
  { s with connectedThreads := s.connectedThreads.modify i fun t => { t with cancelled := true } }

def dropConnect (s : Service) : Service :=
  match s.mConnectThread with
  | none => s
  | some i => { s.cancelConnect i with mConnectThread := none }

def dropAccept (s : Service) : Service :=
  match s.mAcceptThread with
  | none => s
  | some i => { s.cancelAccept i with mAcceptThread := none }

def openAccept (s : Service) : Service :=
  match s.mAcceptThread with
  | some _ => s
  | none => { s with
      mAcceptThread := some s.acceptThreads.length
      acceptThreads := s.acceptThreads ++ [⟨false⟩] }

/-! ## The slots -/

def getSlot (s : Service) (index : ℕ) : Except Exn (Option ℕ) :=
  match s.mConnectedThread with
  | none => .error .nullPointer
  | some slots =>
      if h : 0 < index ∧ index - 1 < senseorNum then .ok (slots.get ⟨index - 1, h.2⟩)
      else .error .indexOutOfBounds

def setSlot (s : Service) (index : ℕ) (t : Option ℕ) : Except Exn Service :=
  match s.mConnectedThread with
  | none => .error .nullPointer
  | some slots =>
      if h : 0 < index ∧ index - 1 < senseorNum then
        .ok { s with mConnectedThread := some (slots.set (index - 1) t h.2) }
      else .error .indexOutOfBounds

def current (s : Service) : Option ℕ :=
  s.mConnectedThread.bind fun slots => slots.get ⟨0, by decide⟩

/-! ## The synchronized operations -/

def connect (s : Service) (index : ℕ) : Except Exn Service := do
  let s ← match ← s.getSlot index with
    | some t => (s.cancelConnected t).setSlot index none
    | none => pure s
  let s := { s with
    mConnectThread := some s.connectThreads.length
    connectThreads := s.connectThreads ++ [ConnectThread.mk index .connecting false] }
  return s.setState .connecting

def start (s : Service) : Service := s.dropConnect.openAccept.setState .listen

def connected (s : Service) (index : ℕ) : Except Exn Service := do
  let s := s.dropConnect.dropAccept
  let s ← s.setSlot index (some s.connectedThreads.length)
  let s := { s with connectedThreads := s.connectedThreads ++ [ConnectedThread.mk index false []] }
  return s.setState .connected

/-- The loop of `stop` over the slots: an empty slot is dereferenced all the same. -/
def cancelSlots (s : Service) (slots : List (Option ℕ)) : Except Exn Service :=
  slots.foldlM (fun s slot =>
    match slot with
    | none => .error .nullPointer
    | some t => .ok (s.cancelConnected t)) s

def stop (s : Service) : Except Exn Service := do
  let s ← match s.mConnectedThread with
    | none => pure s
    | some slots => do
        let s ← s.cancelSlots slots.toList
        pure { s with mConnectedThread := none }
  return s.dropAccept.setState .none

def connectionFailed (s : Service) : Service := s.setState .listen

def connectionLost (s : Service) : Service := s.setState .listen

/-! ## The steps of the threads -/

def setPc (s : Service) (i : ℕ) (pc : ConnectPc) : Service :=
  { s with connectThreads := s.connectThreads.modify i fun t => { t with pc := pc } }

def addPass (s : Service) (i : ℕ) (p : Pass) : Service :=
  { s with connectedThreads := s.connectedThreads.modify i fun t =>
      { t with passes := t.passes ++ [p] } }

end Service

/-- Calls from outside; then the steps of the `i`-th `ConnectThread`, whose `mmSocket.connect()` returns
and who calls `connected`, or throws and who calls `start` once it has closed its socket; and one pass of
the `i`-th `ConnectedThread`, with `connectionLost` where its `read` throws. -/
inductive Action where
  | start
  | connect
  | connected
  | stop
  | connectReturns (i : ℕ)
  | callConnected (i : ℕ)
  | connectThrows (i : ℕ)
  | callStart (i : ℕ)
  | read (i : ℕ) (p : Pass)

/-- One action, if it is enabled. The calls from outside use the index 1, as the service has one slot. -/
def Service.act (s : Service) : Action → Option (Except Exn Service)
  | .start => some (.ok s.start)
  | .connect => some (s.connect 1)
  | .connected => some (s.connected 1)
  | .stop => some s.stop
  | .connectReturns i =>
      match s.connectThreads[i]? with
      | some ⟨_, .connecting, _⟩ =>
          some (.ok { s.setPc i .beforeConnected with mConnectThread := none })
      | _ => none
  | .callConnected i =>
      match s.connectThreads[i]? with
      | some ⟨index, .beforeConnected, _⟩ => some ((s.setPc i .finished).connected index)
      | _ => none
  | .connectThrows i =>
      match s.connectThreads[i]? with
      | some ⟨_, .connecting, _⟩ => some (.ok (s.setPc i .beforeStart).connectionFailed)
      | _ => none
  | .callStart i =>
      match s.connectThreads[i]? with
      | some ⟨_, .beforeStart, _⟩ => some (.ok (s.setPc i .finished).start)
      | _ => none
  | .read i p =>
      match s.connectedThreads[i]? with
      | some _ =>
          some (.ok (if p.result.isIOException then (s.addPass i p).connectionLost else s.addPass i p))
      | none => none

def step : Except Exn Service → Action → Option (Except Exn Service)
  | .ok s, a => s.act a
  | .error _, _ => none

end MyDemo.Bluetooth
