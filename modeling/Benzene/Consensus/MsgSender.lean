import Benzene.Common.GoMap
import Benzene.Common.Run
import Benzene.Types.Message

/-!
# The message sender

`MessageSender` (consensus/consensus_msg_sender.go) sends a consensus message and repeats it until
a newer message of the type takes its place.  Its methods hold no lock: they share a `sync.Map`
and atomic words, and any number of them run at once.

* `MessageSender`: the shared words, every call under way with the atomic action it does next, and
  what was sent so far; an event of `step` is a new call or the next action of a running one.
* `Supersedes`: what the sender is to guarantee; `orderly`: the interleavings in which it does.
-/

namespace Benzene

/-! ## The model -/

/-- `MessageRetry` (consensus/consensus_msg_sender.go:29-36). -/
structure MessageRetry where
  blockNum : UInt64
  groups : List String
  p2pMsg : Bytes
  msgType : MessageType
  retryCount : ℕ
  isActive : Bool
deriving DecidableEq

/-- What a send call does next. -/
inductive SendPc
  /-- `StopRetry` loads the entry of the type. -/
  | loads
  /-- `StopRetry` stops the entry it has loaded. -/
  | stops (old : ℕ)
  | stores
  /-- The goroutine of `Retry` is started. -/
  | starts
  | sends
  | returns
  | returned
deriving DecidableEq

/-- What the goroutine of `Retry` does next. -/
inductive RetryPc
  /-- It has not been started. -/
  | idle
  /-- It sleeps, then looks at `retryCount` and `isActive`. -/
  | checks
  /-- It loads the block number of the sender. -/
  | compares
  | resends
  | ended
deriving DecidableEq

/-- A call of `SendWithRetry` or `DelayedSendWithRetry`, with its message and its goroutine. -/
structure SendCall where
  msgRetry : MessageRetry
  delayed : Bool
  pc : SendPc
  goroutine : RetryPc
deriving DecidableEq

/-- What a call of `StopRetry` does next. -/
inductive StopPc
  | loads (msgType : MessageType)
  | stops (old : ℕ)
  | returned
deriving DecidableEq

/-- What a call of `Reset` does next. It goes over the map twice, first to stop the retries and
    then to delete them; `keys` are those it has yet to visit. -/
inductive ResetPc
  | storesNum (blockNum : UInt64)
  | begins (deleting : Bool)
  | visits (deleting : Bool) (keys : List MessageType)
  | acts (deleting : Bool) (key : MessageType) (found : ℕ) (keys : List MessageType)
  | returned
deriving DecidableEq

/-- What the host and the callers see. -/
inductive SenderAction
  /-- `SendMessageToGroups`, from the call or (`again`) from the goroutine of `Retry`. -/
  | sent (call : ℕ) (msgType : MessageType) (groups : List String) (p2pMsg : Bytes) (again : Bool)
  /-- The send call returns. -/
  | returned (call : ℕ) (msgType : MessageType)
deriving DecidableEq

/-- `MessageSender` (consensus/consensus_msg_sender.go:19-26) and all that runs on it. A message is
    named by the place of its call in `calls`, which is the order of the calls. -/
structure MessageSender where
  blockNum : UInt64
  messagesToRetry : GoMap MessageType ℕ
  retryTimes : ℕ
  calls : List SendCall
  stopRetries : List StopPc
  resets : List ResetPc
  /-- What was done so far, the last action first. -/
  log : List SenderAction

/-- A new call, or the next atomic action of one that runs. -/
inductive SenderEvent
  | sendWithRetry (blockNum : UInt64) (msgType : MessageType) (groups : List String)
      (p2pMsg : Bytes)
  | delayedSendWithRetry (blockNum : UInt64) (msgType : MessageType) (groups : List String)
      (p2pMsg : Bytes)
  | stopRetry (msgType : MessageType)
  | reset (blockNum : UInt64)
  | send (i : ℕ)
  | retry (i : ℕ)
  | stop (i : ℕ)
  /-- `order` is the order in which a `Range` that begins visits the keys. -/
  | clear (i : ℕ) (order : List MessageType)
deriving DecidableEq

namespace MessageSender

/-- `NewMessageSender` (consensus/consensus_msg_sender.go:39-41), which takes the quotient of
    `phaseDuration` (27 seconds) and `RetryIntervalInSec` (7) for `retryTimes`. -/
def newMessageSender (retryTimes : ℕ) : MessageSender :=
  ⟨0, ∅, retryTimes, [], [], [], []⟩

variable (s : MessageSender)

def modifyCall (i : ℕ) (f : SendCall → SendCall) : MessageSender :=
  { s with calls := s.calls.modify i f }

def setPc (i : ℕ) (pc : SendPc) : MessageSender :=
  s.modifyCall i fun c => { c with pc := pc }

def setGoroutine (i : ℕ) (g : RetryPc) : MessageSender :=
  s.modifyCall i fun c => { c with goroutine := g }

/-- `atomic.StoreUint32(&msgRetry.isActive, 0)`. -/
def deactivate (k : ℕ) : MessageSender :=
  s.modifyCall k fun c => { c with msgRetry := { c.msgRetry with isActive := false } }

def act (a : SenderAction) : MessageSender := { s with log := a :: s.log }

def sendMessageToGroups (i : ℕ) (m : MessageRetry) (again : Bool) : MessageSender :=
  s.act (.sent i m.msgType m.groups m.p2pMsg again)

/-- After the goroutine is started `SendWithRetry` sends and `DelayedSendWithRetry` returns. -/
def afterStart (delayed : Bool) : SendPc := if delayed then .returns else .sends

/-- The common beginning of the two send calls (consensus/consensus_msg_sender.go:59-61 and 74-76).
    Without retries the record is not built; here it then only names the message. -/
def sendCall (delayed : Bool) (blockNum : UInt64) (msgType : MessageType) (groups : List String)
    (p2pMsg : Bytes) : MessageSender :=
  { s with
    calls := s.calls ++
      [{msgRetry := ⟨blockNum, groups, p2pMsg, msgType, 0, s.retryTimes != 0⟩
        delayed := delayed
        pc := if s.retryTimes != 0 then .loads else afterStart delayed
        goroutine := .idle}] }

/-- `SendWithRetry` is called (consensus/consensus_msg_sender.go:58-70). -/
def sendWithRetry := s.sendCall false

/-- `DelayedSendWithRetry` is called (consensus/consensus_msg_sender.go:73-84). -/
def delayedSendWithRetry := s.sendCall true

/-- The next action of the `i`-th send call (consensus/consensus_msg_sender.go:62-69 and 77-82, with
    `StopRetry` at 127-133). -/
def sendStep (i : ℕ) : MessageSender :=
  match s.calls[i]? with
  | none => s
  | some c =>
    match c.pc with
    | .loads =>
      match s.messagesToRetry.lookup c.msgRetry.msgType with
      | some old => s.setPc i (.stops old)
      | none => s.setPc i .stores
    | .stops old => (s.deactivate old).setPc i .stores
    | .stores =>
      { s with messagesToRetry := s.messagesToRetry.insert c.msgRetry.msgType i }.setPc i .starts
    | .starts =>
      s.modifyCall i fun c => { c with pc := afterStart c.delayed, goroutine := .checks }
    | .sends => (s.sendMessageToGroups i c.msgRetry false).setPc i .returns
    | .returns => (s.act (.returned i c.msgRetry.msgType)).setPc i .returned
    | .returned => s

/-- The next action of the `i`-th `Retry` (consensus/consensus_msg_sender.go:92-124). Only this
    goroutine reads and writes `retryCount`. -/
def retryStep (i : ℕ) : MessageSender :=
  match s.calls[i]? with
  | none => s
  | some c =>
    match c.goroutine with
    | .idle | .ended => s
    | .checks =>
      if c.msgRetry.retryCount ≥ s.retryTimes then s.setGoroutine i .ended
      else if !c.msgRetry.isActive then s.setGoroutine i .ended
      else if c.msgRetry.msgType != .committed then s.setGoroutine i .compares
      else s.setGoroutine i .resends
    | .compares =>
      if c.msgRetry.blockNum < s.blockNum then s.setGoroutine i .ended
      else s.setGoroutine i .resends
    | .resends =>
      (s.sendMessageToGroups i c.msgRetry true).modifyCall i fun c =>
        { c with
          msgRetry := { c.msgRetry with retryCount := c.msgRetry.retryCount + 1 }
          goroutine := .checks }

/-- The next action of the `i`-th `StopRetry` (consensus/consensus_msg_sender.go:127-133). -/
def stopStep (i : ℕ) : MessageSender :=
  match s.stopRetries[i]? with
  | none | some .returned => s
  | some (.loads msgType) =>
    match s.messagesToRetry.lookup msgType with
    | some old => { s with stopRetries := s.stopRetries.set i (.stops old) }
    | none => { s with stopRetries := s.stopRetries.set i .returned }
  | some (.stops old) => { s.deactivate old with stopRetries := s.stopRetries.set i .returned }

/-- The keys that a `Range` visits: each once, all that are in the map when it begins, and maybe
    others. -/
def rangeKeys (order : List MessageType) : List MessageType :=
  (order ++ s.messagesToRetry.keys).dedup

/-- A `Range` loads the value of the next key and calls its function, which leaves the COMMITTED
    messages alone. -/
def visitKey (deleting : Bool) (key : MessageType) (keys : List MessageType) : ResetPc :=
  match s.messagesToRetry.lookup key with
  | none => .visits deleting keys
  | some k =>
    match s.calls[k]? with
    | none => .visits deleting keys
    | some c =>
      if c.msgRetry.msgType != .committed then .acts deleting key k keys else .visits deleting keys

/-- The next action of the `i`-th `Reset` (consensus/consensus_msg_sender.go:44-55, with
    `StopAllRetriesExceptCommitted` at 136-145). -/
def resetStep (i : ℕ) (order : List MessageType) : MessageSender :=
  match s.resets[i]? with
  | none | some .returned => s
  | some (.storesNum blockNum) =>
    { s with blockNum := blockNum, resets := s.resets.set i (.begins false) }
  | some (.begins deleting) =>
    { s with resets := s.resets.set i (.visits deleting (s.rangeKeys order)) }
  | some (.visits deleting []) =>
    { s with resets := s.resets.set i (if deleting then .returned else .begins true) }
  | some (.visits deleting (key :: keys)) =>
    { s with resets := s.resets.set i (s.visitKey deleting key keys) }
  | some (.acts false _ found keys) =>
    { s.deactivate found with resets := s.resets.set i (.visits false keys) }
  | some (.acts true key _ keys) =>
    { s with
      messagesToRetry := s.messagesToRetry.erase key
      resets := s.resets.set i (.visits true keys) }

def step : SenderEvent → MessageSender
  | .sendWithRetry blockNum msgType groups p2pMsg => s.sendWithRetry blockNum msgType groups p2pMsg
  | .delayedSendWithRetry blockNum msgType groups p2pMsg =>
    s.delayedSendWithRetry blockNum msgType groups p2pMsg
  | .stopRetry msgType => { s with stopRetries := s.stopRetries ++ [.loads msgType] }
  | .reset blockNum => { s with resets := s.resets ++ [.storesNum blockNum] }
  | .send i => s.sendStep i
  | .retry i => s.retryStep i
  | .stop i => s.stopStep i
  | .clear i order => s.resetStep i order

end MessageSender

/-! ## What is to hold -/

/-- The goroutine has been told to go on and has not sent yet. -/
def RetryPc.passed : RetryPc → Bool
  | .compares | .resends => true
  | _ => false

/-- The retry is active and not used up. -/
def SendCall.retrying (retryTimes : ℕ) (c : SendCall) : Bool :=
  c.goroutine != .idle && c.goroutine != .ended && c.msgRetry.isActive &&
    decide (c.msgRetry.retryCount < retryTimes)

/-- A message is sent though the send call of a newer one of its type had returned. -/
def SenderAction.outdatedBy : SenderAction → SenderAction → Bool
  | .sent i t _ _ _, .returned j u => decide (i < j) && t == u
  | _, _ => false

/-- The message of the `i`-th call is sent again. -/
def SenderAction.isResend (i : ℕ) : SenderAction → Bool
  | .sent j _ _ _ again => again && j == i
  | _ => false

namespace MessageSender

/-- How often the message of the `i`-th call was sent again. -/
def resends (s : MessageSender) (i : ℕ) : ℕ := s.log.countP (SenderAction.isResend i)

/-- Two retries of a type are not both active and unexhausted. -/
def OneActive (s : MessageSender) : Prop :=
  s.calls.Pairwise fun c d => ¬ (c.msgRetry.msgType = d.msgRetry.msgType ∧
    c.retrying s.retryTimes = true ∧ d.retrying s.retryTimes = true)

/-- Nothing was sent after a newer message of its type had replaced it. -/
def NoneOutdated (s : MessageSender) : Prop :=
  s.log.Pairwise fun later earlier => later.outdatedBy earlier = false

instance (s : MessageSender) : Decidable s.OneActive :=
  inferInstanceAs (Decidable (s.calls.Pairwise _))

instance (s : MessageSender) : Decidable s.NoneOutdated :=
  inferInstanceAs (Decidable (s.log.Pairwise _))

structure Supersedes (s : MessageSender) : Prop where
  oneActive : s.OneActive
  noneOutdated : s.NoneOutdated
  bounded : ∀ i, s.resends i ≤ s.retryTimes

end MessageSender

/-- The `Reset` is between the first key of its first pass and the end of the second. -/
def ResetPc.clearing : ResetPc → Bool
  | .visits _ _ | .acts _ _ _ _ | .begins true => true
  | _ => false

namespace MessageSender

/-- No send call of the type is running. -/
def idleType (s : MessageSender) (msgType : MessageType) : Bool :=
  s.calls.all fun c => c.msgRetry.msgType != msgType || c.pc == .returned

/-- No older message of the type is about to be sent by a retry that has passed its check. -/
def nonePassed (s : MessageSender) (i : ℕ) (msgType : MessageType) : Bool :=
  (s.calls.take i).all fun c => c.msgRetry.msgType != msgType || !c.goroutine.passed

/-- The sends of a type come one after the other, none stores its message while a `Reset` goes over
    the map, and none returns while a retry of an older message has passed its check. -/
def orderly (s : MessageSender) : SenderEvent → Bool
  | .sendWithRetry _ msgType _ _ | .delayedSendWithRetry _ msgType _ _ => s.idleType msgType
  | .send i =>
    match s.calls[i]? with
    | none => true
    | some c =>
      match c.pc with
      | .stores => c.msgRetry.msgType == .committed || s.resets.all fun r => !r.clearing
      | .returns => s.nonePassed i c.msgRetry.msgType
      | _ => true
  | _ => true

end MessageSender

end Benzene
