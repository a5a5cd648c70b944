import ProxyAuth.Runs
import ProxyAuth.Utf8

/-!
The service of the phone app: one socket, which the worker thread and `onDestroy` share, and one
buffer for all messages.

The worker is a machine that makes a step each time it tests, sets or uses the socket. Between two
steps the peer may go away, and `onDestroy` may run on the main thread.
-/

namespace ProxyAuth.BluetoothInteraction

open ProxyAuth.Utf8

/-! ### The buffer -/

structure Buffer where
  bytes : List UInt8
  size : bytes.length = 1024

def Buffer.zero : Buffer := ⟨List.replicate 1024 0, List.length_replicate⟩

/-- The bytes that one `read` delivers. -/
structure Message where
  bytes : List UInt8
  nonempty : bytes ≠ []
  fits : bytes.length ≤ 1024

inductive Read
  | data (m : Message)
  | endOfStream

/-- `read(buffer)`: the bytes go to the front, the others stay. -/
def Buffer.read (b : Buffer) : Read → Buffer
  | .data m => ⟨m.bytes ++ b.bytes.drop m.bytes.length, by simp [b.size, m.fits]⟩
  | .endOfStream => b

/-- `buffer.toString(Charsets.UTF_8)`. -/
def Buffer.toText (b : Buffer) : Text := decode b.bytes

lemma Buffer.toText_ne (b : Buffer) : b.toText ≠ [] := by
  apply decode_ne
  intro h
  have hsize := b.size
  rw [h] at hsize
  cases hsize

/-! ### The worker -/

/-- The socket that was created last; `closed` also where there was none. The peer of a `dropped`
one is gone, which `isConnected` may or may not know yet. -/
inductive Link
  | created
  | connected
  | dropped
  | closed
  deriving DecidableEq

inductive Exception
  | nullPointer
  | io
  deriving DecidableEq

/-- Where `disconnect` was called; `thrown` when it ends with the exception it has to pass on. -/
inductive Caller
  | connect
  | receiveCommand
  | sendCommand
  | runServer
  | thrown
  deriving DecidableEq

/-- The step that comes next. In each function `…Null` compares the socket with null, and `…Live`
asks it whether it is connected. -/
inductive Place
  | connectNull
  | connectLive
  | create
  | connect
  | serverNull
  | serverLive
  | receiveNull
  | receiveLive
  | receiveStream
  | receiveRead
  | stopTest (buf : Text)
  | sendNull
  | sendLive
  | sendStream
  | sendWrite
  | disconnectNull (k : Caller)
  | closeOutput (k : Caller)
  | closeInput (k : Caller)
  | closeSocket (k : Caller)
  | clear (k : Caller)
  | finished
  | crashed (e : Exception)
  deriving DecidableEq

/-- `held` says that `bluetooth_socket` is not null, and `stopping` that `stopSelf` was called. -/
structure Service where
  held : Bool
  link : Link
  buffer : Buffer
  stopping : Bool
  place : Place

/-- What the system answers: whether the call succeeds or, where it cannot be told from the
socket, whether it is connected; and what is read. -/
structure Answer where
  ok : Bool
  read : Read

def Service.goto (s : Service) (p : Place) : Service := { s with place := p }

/-- A step that dereferences the socket. -/
def Service.deref (s : Service) (p : Place) : Service :=
  s.goto (if s.held then p else .crashed .nullPointer)

def Service.isConnected (s : Service) (a : Answer) : Bool :=
  match s.link with
  | .connected => true
  | .dropped => a.ok
  | .created | .closed => false

/-- The step after `disconnect`; the result of `connect` is not looked at. -/
def Caller.next : Caller → Place
  | .connect => .serverNull
  | .receiveCommand => .receiveStream
  | .sendCommand => .sendStream
  | .runServer => .finished
  | .thrown => .crashed .nullPointer

/-- A step in the `try` of `disconnect`; a null socket raises what only the `finally` sees. -/
def Service.close (s : Service) (a : Answer) (k : Caller) (p : Place) : Service :=
  if s.held then s.goto (if a.ok then p else .clear k) else s.goto (.clear .thrown)

def Service.receive (s : Service) (r : Read) : Service :=
  { s with buffer := s.buffer.read r, place := .stopTest (s.buffer.read r).toText }

/-- One step of the worker, if it is not waiting for data. -/
def Service.work (s : Service) (a : Answer) : Option Service :=
  match s.place with
  -- connect
  | .connectNull => some (s.goto (if s.held then .connectLive else .create))
  | .connectLive => some (s.deref (if s.isConnected a then .serverNull else .create))
  | .create =>
    if a.ok then some { s with held := true, link := .created, place := .connect }
    else some (s.goto (.disconnectNull .connect))
  | .connect =>
    if s.held then
      if a.ok then some { s with link := .connected, place := .serverNull }
      else some (s.goto (.disconnectNull .connect))
    else some (s.goto (.crashed .nullPointer))
  -- runServer
  | .serverNull => some (s.goto (if s.held then .serverLive else .disconnectNull .runServer))
  | .serverLive =>
    some (s.deref (if s.isConnected a then .receiveNull else .disconnectNull .runServer))
  -- receiveCommand
  | .receiveNull =>
    some (s.goto (if s.held then .receiveLive else .disconnectNull .receiveCommand))
  | .receiveLive =>
    some (s.deref (if s.isConnected a then .receiveStream else .disconnectNull .receiveCommand))
  | .receiveStream => some (s.deref .receiveRead)
  | .receiveRead =>
    match s.link, a.read with
    | .connected, .data m => some (s.receive (.data m))
    | .connected, .endOfStream => none
    | .dropped, r => some (if a.ok then s.receive r else s.goto (.crashed .io))
    | _, _ => some (s.goto (.crashed .io))
  | .stopTest buf => some { s with stopping := s.stopping || buf == [], place := .sendNull }
  -- sendCommand
  | .sendNull => some (s.goto (if s.held then .sendLive else .disconnectNull .sendCommand))
  | .sendLive =>
    some (s.deref (if s.isConnected a then .sendStream else .disconnectNull .sendCommand))
  | .sendStream => some (s.deref .sendWrite)
  | .sendWrite => some (s.goto .serverNull)
  -- disconnect
  | .disconnectNull k => some (s.goto (if s.held then .closeOutput k else k.next))
  | .closeOutput k => some (s.close a k (.closeInput k))
  | .closeInput k => some (s.close a k (.closeSocket k))
  | .closeSocket k =>
    some { s.close a k (.clear k) with link := if s.held && a.ok then .closed else s.link }
  | .clear k => some { s with held := false, place := k.next }
  | .finished => none
  | .crashed _ => none

inductive Action
  | work (a : Answer)
  | drop
  | destroy (ok : Bool)

/-- The main thread's `disconnect`, all of it at once. -/
def Service.onDestroy (s : Service) (ok : Bool) : Service :=
  if s.held then { s with held := false, link := if ok then .closed else s.link } else s

def step (s : Service) : Action → Option Service
  | .work a => s.work a
  | .drop => if s.link = .connected then some { s with link := .dropped } else none
  | .destroy ok => some (s.onDestroy ok)

/-- The cost of a run is the number of the worker's steps. -/
def cost : Action → ℕ
  | .work _ => 1
  | .drop => 0
  | .destroy _ => 0

/-- `onHandleIntent` begins. -/
def Service.Starts (s : Service) : Prop :=
  s.place = .connectNull ∧ (s.held = false → s.link = .closed)

end ProxyAuth.BluetoothInteraction
