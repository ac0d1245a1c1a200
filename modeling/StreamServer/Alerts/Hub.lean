import Mathlib.Data.Finset.Erase
import Mathlib.Data.Finset.Insert
import Mathlib.Data.Finset.Card
import Mathlib.Logic.Function.Basic
import StreamServer.Lib.GuardedSystem
import StreamServer.Readers.Layout

/-!
# The hub of torrent alerts

Whoever needs the bytes of a piece calls `read_piece`.  Calls for one piece share a
broadcast channel: the first makes the sender and asks the native library for the piece,
the others join it, and all of them wait, each for a time of its own.  An alert takes the
sender out of the table and sends the result.  A call that times out takes the sender out
of the table if nobody else seems to need it.

Only the table holds senders, so a channel is closed once its sender has left the table.
Dispatching a file error sends after the lock is given back; nobody else can reach the
senders then, so that a dispatch is one step here.

## Main definitions

* `AlertInfo.resultFor` — what an alert has for the waiters of a piece.
* `Call`, `CallStep` — a call of `read_piece` and its steps.
* `Hub`, `alertHub` — the hub and the calls under way.
* `Hub.recv` — what a waiting call finds in its channel.

## References

`enginefs/src/backend/libtorrent/alerts.rs`.
-/

namespace StreamServer.Alerts

open Readers

/-- An info hash in lower case, and a piece. -/
abbrev PieceKey := String × ℤ

/-- What a sender broadcasts: the bytes of the piece, or the text of an error. -/
abbrev PieceResult := Except String (List UInt8)

/-! ### Alerts -/

/-- The kinds of alerts that `dispatch` tells apart. -/
inductive AlertType
  | readPiece
  | fileError
  | other
  deriving DecidableEq, Repr

/-- `AlertInfo`, the fields that `dispatch` reads. -/
structure AlertInfo where
  alertType : AlertType
  infoHash : String
  pieceIndex : ℤ
  pieceData : List UInt8
  message : String
  deriving DecidableEq, Repr

namespace AlertInfo

/-- The result a read-piece alert brings. -/
def pieceResult (alert : AlertInfo) : PieceResult :=
  if alert.pieceData = [] then
    .error s!"libtorrent returned no data for piece {alert.pieceIndex}"
  else .ok alert.pieceData

/-- What an alert has for the waiters of a piece. -/
def resultFor (alert : AlertInfo) (key : PieceKey) : Option PieceResult :=
  if alert.infoHash = "" then none
  else
    match alert.alertType with
    | .readPiece =>
        if 0 ≤ alert.pieceIndex ∧ key = (alert.infoHash, alert.pieceIndex) then
          some alert.pieceResult
        else none
    | .fileError => if key.1 = alert.infoHash then some (.error alert.message) else none
    | .other => none

end AlertInfo

/-! ### Channels and calls -/

/-- A `tokio::sync::broadcast` channel for one result: what has been sent, and the calls that
hold a receiver. -/
structure Broadcast where
  key : PieceKey
  sent : List PieceResult
  receivers : Finset ℕ

/-- What `recv` of a broadcast receiver gives. -/
inductive Received
  | pending
  | value (result : PieceResult)
  | lagged
  | closed
  deriving DecidableEq, Repr

/-- Where a call of `read_piece` is. -/
inductive CallPc
  | idle
  /-- It has made the sender, and is about to ask for the piece. -/
  | submitting
  | waiting
  | timedOut
  /-- It is about to return, and still holds its receiver. -/
  | leaving (result : Except IoError (List UInt8))
  | gone
  deriving DecidableEq, Repr

/-- The call has its result. -/
def CallPc.leaves : CallPc → Bool
  | .leaving _ => true
  | _ => false

/-- A call of `read_piece`, with the receiver it holds. -/
structure Call where
  key : PieceKey
  channel : ℕ
  /-- The number of the next result it receives. -/
  next : ℕ
  pc : CallPc
  /-- It has joined a sender that was there. -/
  joined : Bool
  /-- The torrent has been removed since it came. -/
  removed : Bool
  deriving DecidableEq, Repr

/-- The error of a receiver that has been overtaken. -/
def laggedError (piece : ℤ) : IoError :=
  ⟨.other, s!"piece broker lagged while reading piece {piece}"⟩

/-- The error of a receiver whose sender is gone. -/
def closedError : IoError := ⟨.brokenPipe, "libtorrent piece broker closed"⟩

/-- The error of a call that no result has reached in time. -/
def timedOutError (piece : ℤ) : IoError :=
  ⟨.timedOut, s!"timed out reading torrent piece {piece}"⟩

/-- What `read_piece` returns for what it has received. -/
def Received.result (piece : ℤ) : Received → Except IoError (List UInt8)
  | .value (.ok data) => .ok data
  | .value (.error error) => .error ⟨.other, error⟩
  | .lagged => .error (laggedError piece)
  | .closed => .error closedError
  | .pending => .error (timedOutError piece)

/-! ### The hub -/

/-- The map of senders with the channels and the calls that are under way. -/
structure Hub where
  pieceSenders : PieceKey → Option ℕ
  channels : ℕ → Broadcast
  newChannel : ℕ
  calls : ℕ → Call

/-- How the native library takes the request. -/
inductive Submission
  | submitted
  /-- The piece is there, and reading it fails at once. -/
  | refused (error : String)
  deriving DecidableEq, Repr

/-- The steps of a call, each between two places where it waits. -/
inductive CallStep
  | join (key : PieceKey)
  | submit (submission : Submission)
  | recv
  /-- The timeout elapses before anything has come. -/
  | fire
  /-- The call that has timed out takes the lock. -/
  | cleanUp
  | leave
  /-- The calling task is cancelled. -/
  | cancel
  deriving DecidableEq, Repr

/-- A step of a call, an alert, or the removal of a torrent. -/
inductive Action
  | call (i : ℕ) (step : CallStep)
  | dispatch (alert : AlertInfo)
  | removeTorrent (infoHash : String)
  deriving DecidableEq, Repr

namespace Hub

variable (s : Hub)

/-- What `receiver.recv()` finds.  The channel keeps the last result only, and is closed when
its sender has left the table. -/
def recv (call : Call) : Received :=
  let channel := s.channels call.channel
  if call.next + 1 < channel.sent.length then .lagged
  else
    match channel.sent[call.next]? with
    | some result => .value result
    | none => if s.pieceSenders channel.key = some call.channel then .pending else .closed

/-- `receiver_count()` of a channel. -/
def receiverCount (channel : ℕ) : ℕ := (s.channels channel).receivers.card

/-- The hub with the call `i` put to `call`. -/
def setCall (i : ℕ) (call : Call) : Hub := { s with calls := Function.update s.calls i call }

/-- The call `i` goes on at `pc`. -/
def setPc (i : ℕ) (pc : CallPc) : Hub := s.setCall i { s.calls i with pc := pc }

/-- The hub with the channel `c` put to `channel`. -/
def setChannel (c : ℕ) (channel : Broadcast) : Hub :=
  { s with channels := Function.update s.channels c channel }

/-- The sender of `key` leaves the map. -/
def removeSender (key : PieceKey) : Hub :=
  { s with pieceSenders := Function.update s.pieceSenders key none }

/-- The call joins the sender for its key, or makes one. -/
def join (i : ℕ) (key : PieceKey) : Hub :=
  match s.pieceSenders key with
  | some c =>
      let channel := s.channels c
      (s.setChannel c { channel with receivers := insert i channel.receivers }).setCall i
        ⟨key, c, channel.sent.length, .waiting, true, false⟩
  | none =>
      let c := s.newChannel
      { (s.setChannel c ⟨key, [], {i}⟩).setCall i ⟨key, c, 0, .submitting, false, false⟩ with
        pieceSenders := Function.update s.pieceSenders key (some c)
        newChannel := c + 1 }

/-- The sender for a key is removed, and used. -/
def fail (key : PieceKey) (error : String) : Hub :=
  match s.pieceSenders key with
  | some c =>
      let channel := s.channels c
      (s.removeSender key).setChannel c { channel with sent := channel.sent ++ [.error error] }
  | none => s

/-- A call that has timed out removes the sender for its key, unless others receive from it. -/
def cleanUp (key : PieceKey) : Hub :=
  match s.pieceSenders key with
  | some c => if s.receiverCount c ≤ 1 then s.removeSender key else s
  | none => s

/-- The receiver of a call is dropped. -/
def dropReceiver (i : ℕ) : Hub :=
  let c := (s.calls i).channel
  let channel := s.channels c
  (s.setChannel c { channel with receivers := channel.receivers.erase i }).setPc i .gone

/-- The senders an alert has a result for are removed, and used. -/
def dispatch (alert : AlertInfo) : Hub :=
  { s with
    pieceSenders := fun key => if (alert.resultFor key).isSome then none else s.pieceSenders key
    channels := fun c =>
      let channel := s.channels c
      match alert.resultFor channel.key with
      | some result =>
          if s.pieceSenders channel.key = some c then
            { channel with sent := channel.sent ++ [result] }
          else channel
      | none => channel }

/-- `remove_torrent`: all senders of the torrent leave the map. -/
def removeTorrent (infoHash : String) : Hub :=
  { s with
    pieceSenders := fun key => if key.1 = infoHash then none else s.pieceSenders key
    calls := fun i =>
      let call := s.calls i
      if call.key.1 = infoHash then { call with removed := true } else call }

end Hub

/-- When a call can take a step. -/
def CallStep.guard (s : Hub) (call : Call) : CallStep → Prop
  | .join _ => call.pc = .idle
  | .submit _ => call.pc = .submitting
  | .recv => call.pc = .waiting ∧ s.recv call ≠ .pending
  | .fire => call.pc = .waiting ∧ s.recv call = .pending
  | .cleanUp => call.pc = .timedOut
  | .leave => call.pc.leaves = true
  | .cancel => call.pc = .waiting

/-- What a step of the call `i` does. -/
def CallStep.effect (s : Hub) (i : ℕ) (call : Call) : CallStep → Hub
  | .join key => s.join i key
  | .submit .submitted => s.setPc i .waiting
  | .submit (.refused error) => (s.fail call.key error).setPc i .waiting
  | .recv => s.setPc i (.leaving ((s.recv call).result call.key.2))
  | .fire => s.setPc i .timedOut
  | .cleanUp => (s.cleanUp call.key).setPc i (.leaving (.error (timedOutError call.key.2)))
  | .leave | .cancel => s.dropReceiver i

/-- When an action can happen; alerts and removals always can. -/
def Action.guard (s : Hub) : Action → Prop
  | .call i step => step.guard s (s.calls i)
  | .dispatch _ | .removeTorrent _ => True

/-- What an action does. -/
def Action.effect (s : Hub) : Action → Hub
  | .call i step => step.effect s i (s.calls i)
  | .dispatch alert => s.dispatch alert
  | .removeTorrent infoHash => s.removeTorrent infoHash

/-- The hub and the calls of `read_piece`. -/
def alertHub : GuardedSystem Hub Action := ⟨fun s a => a.guard s, fun s a => a.effect s⟩

/-- A hub that has just been made. -/
def Hub.new : Hub :=
  ⟨fun _ => none, fun _ => ⟨("", 0), [], ∅⟩, 0, fun _ => ⟨("", 0), 0, 0, .idle, false, false⟩⟩

instance (s : Hub) (call : Call) : ∀ step : CallStep, Decidable (step.guard s call)
  | .join _ | .submit _ | .cleanUp | .leave | .cancel => inferInstanceAs (Decidable (_ = _))
  | .recv | .fire => inferInstanceAs (Decidable (_ ∧ _))

instance (s : Hub) : ∀ a : Action, Decidable (a.guard s)
  | .call i step => inferInstanceAs (Decidable (step.guard s (s.calls i)))
  | .dispatch _ | .removeTorrent _ => inferInstanceAs (Decidable True)

instance (s : Hub) (a : Action) : Decidable (alertHub.guard s a) :=
  inferInstanceAs (Decidable (a.guard s))

end StreamServer.Alerts
