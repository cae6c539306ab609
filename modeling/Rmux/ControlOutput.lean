import Rmux.MachineInt
import Rmux.Pane
import Rmux.Utf8

/-!
# Output to a control client

Lines are queued as blocks and a flush writes the whole queue. When too much is queued, a pane with
new output is marked as paused and a `%pause` line goes into the queue. When a flush has brought the
queue down far enough, it writes `%continue` lines for all paused panes at once, past what is still
queued. Writes succeed here.
-/

namespace Rmux

open MachineInt

def controlBufferLow : ℕ := 512

def controlBufferHigh : ℕ := 8192

def controlMaximumAgeMs : ℕ := 300000

/-! ## Lines -/

def pushOctalEscape (byte : UInt8) : List UInt8 :=
  let digit (bits : UInt8) : UInt8 := 0x30 + (bits &&& 7)
  [0x5c, digit (byte >>> 6), digit (byte >>> 3), digit byte]

def needsOctalEscape (byte : UInt8) : Bool := byte < 0x20 || byte = 0x5c

/-- Characters stay, but for control characters and the backslash. Bytes that are not UTF-8 are
escaped : the beginning of a character that another byte breaks off as a whole, and a byte that cannot
begin one, or begins one the bytes end in, alone. -/
def octalEscapeFrom : ℕ → List UInt8 → List UInt8
  | 0, _ => []
  | _, [] => []
  | fuel + 1, b :: bytes =>
    if b < 0x80 then
      (if needsOctalEscape b then pushOctalEscape b else [b]) ++ octalEscapeFrom fuel bytes
    else
      match utf8Lead b with
      | none => pushOctalEscape b ++ octalEscapeFrom fuel bytes
      | some (n, low, high) =>
        let (taken, rest) := takeContinuation n low high bytes
        if taken.length = n then b :: taken ++ octalEscapeFrom fuel rest
        else if rest = [] then pushOctalEscape b ++ octalEscapeFrom fuel bytes
        else (b :: taken).flatMap pushOctalEscape ++ octalEscapeFrom fuel rest

def octalEscape (bytes : List UInt8) : List UInt8 := octalEscapeFrom bytes.length bytes

def formatOutputLine (paneId : PaneId) (bytes : List UInt8) : List UInt8 :=
  textUtf8 s!"%output %{paneId.toNat} " ++ octalEscape bytes ++ [0x0a]

def formatExtendedOutputLine (paneId : PaneId) (ageMs : ℕ) (bytes : List UInt8) : List UInt8 :=
  textUtf8 s!"%extended-output %{paneId.toNat} {ageMs} : " ++ octalEscape bytes ++ [0x0a]

def formatPauseLine (paneId : PaneId) : List UInt8 := textUtf8 s!"%pause %{paneId.toNat}\n"

def formatContinueLine (paneId : PaneId) : List UInt8 := textUtf8 s!"%continue %{paneId.toNat}\n"

def tooFarBehind : List UInt8 := textUtf8 "%exit too far behind\n"

/-! ## The queue -/

/-- What a line is. The code keeps no such mark : it tells the lines of the flow control from others
with the same text. -/
inductive LineOrigin
  | pause (paneId : PaneId)
  | resume (paneId : PaneId)
  | output (paneId : PaneId)
  | other
deriving DecidableEq

/-- Bytes, and what they are. -/
structure ControlLine where
  origin : LineOrigin
  bytes : List UInt8
deriving DecidableEq

/-- A queued line. -/
structure ControlBlock where
  line : ControlLine
  output : Bool
  enqueuedAt : ℕ
deriving DecidableEq

/-- The queued lines and the number of their bytes. -/
structure ControlOutputQueue where
  blocks : List ControlBlock := []
  bufferedBytes : ℕ := 0
  transportClosed : Bool := false
deriving DecidableEq

def ensureControlNewline (bytes : List UInt8) : List UInt8 :=
  if bytes.getLast? = some 0x0a then bytes else bytes ++ [0x0a]

def ControlOutputQueue.enqueueLine (queue : ControlOutputQueue) (origin : LineOrigin)
    (bytes : List UInt8) (output : Bool) (now : ℕ) : ControlOutputQueue :=
  if queue.transportClosed then queue
  else
    let bytes := if output then bytes else ensureControlNewline bytes
    { queue with
      bufferedBytes := satAdd64 queue.bufferedBytes bytes.length
      blocks := queue.blocks ++ [⟨⟨origin, bytes⟩, output, now⟩] }

/-- What a control client has asked for. -/
structure ControlClientFlags where
  pauseAfterMillis : Option ℕ
  noOutput : Bool
  waitExit : Bool
deriving DecidableEq

def ControlClientFlags.usesExtendedOutput (flags : ControlClientFlags) : Bool :=
  flags.pauseAfterMillis.isSome

/-! ## The client -/

/-- The queue, the paused panes and what has been written. -/
structure ControlClient where
  queue : ControlOutputQueue := {}
  pausedPanes : List PaneId := []
  wire : List ControlLine := []
deriving DecidableEq

/-- Output of a pane, or the news that some of it was dropped. -/
inductive PaneEvent
  | data (paneId : PaneId) (bytes : List UInt8) (receivedAt : ℕ)
  | lagged (paneId : PaneId)
deriving DecidableEq

/-- The line of a pane's output. -/
def outputLine (flags : ControlClientFlags) (now : ℕ) (paneId : PaneId) (bytes : List UInt8)
    (receivedAt : ℕ) : List UInt8 :=
  if flags.usesExtendedOutput then
    formatExtendedOutputLine paneId (min (now - receivedAt) u64Max) bytes
  else formatOutputLine paneId bytes

namespace ControlClient

variable (client : ControlClient)

/-- Mark a pane as paused, with its line, when the queue is long. -/
def pauseIfBehind (flags : ControlClientFlags) (now : ℕ) (paneId : PaneId) : ControlClient :=
  if flags.usesExtendedOutput ∧ controlBufferHigh ≤ client.queue.bufferedBytes ∧
      paneId ∉ client.pausedPanes then
    { client with
      pausedPanes := paneId :: client.pausedPanes
      queue := client.queue.enqueueLine (.pause paneId) (formatPauseLine paneId) false now }
  else client

/-- Queue a line for an event. The result says whether the client is to be dropped. -/
def handlePaneEvent (flags : ControlClientFlags) (now : ℕ) (event : PaneEvent) :
    Bool × ControlClient :=
  if flags.noOutput then (false, client)
  else
    match event with
    | .data paneId bytes receivedAt =>
      let client := client.pauseIfBehind flags now paneId
      (false, { client with
        queue := client.queue.enqueueLine (.output paneId)
          (outputLine flags now paneId bytes receivedAt) true now })
    | .lagged _ =>
      (true, { client with queue := client.queue.enqueueLine .other tooFarBehind false now })

/-- Handle the events that are ready, each at its time, up to one that drops the client. -/
def drainReadyPaneEvents (flags : ControlClientFlags) :
    List (ℕ × PaneEvent) → ControlClient → Bool × ControlClient
  | [], client => (false, client)
  | (now, event) :: events, client =>
    match client.handlePaneEvent flags now event with
    | (true, client) => (true, client)
    | (false, client) => drainReadyPaneEvents flags events client

/-- A set is drained in some order of its own. -/
def DrainOrder := { order : List PaneId → List PaneId // ∀ panes, (order panes).Perm panes }

/-- Write the blocks one by one. The result says whether the client is too far behind. -/
def flushBlocks (flags : ControlClientFlags) (order : DrainOrder) (now : ℕ) :
    List ControlBlock → ControlClient → Bool × ControlClient
  | [], client => (false, { client with queue := { client.queue with blocks := [] } })
  | block :: blocks, client =>
    if block.output ∧ ¬flags.usesExtendedOutput ∧ now - block.enqueuedAt > controlMaximumAgeMs then
      (true, { client with
        queue := { client.queue with blocks := block :: blocks }
        wire := client.wire ++ [⟨.other, tooFarBehind⟩] })
    else
      let buffered := client.queue.bufferedBytes - block.line.bytes.length
      let client := { client with
        queue := { client.queue with bufferedBytes := buffered }
        wire := client.wire ++ [block.line] }
      if buffered ≤ controlBufferLow ∧ client.pausedPanes ≠ [] then
        flushBlocks flags order now blocks { client with
          pausedPanes := []
          wire := client.wire ++
            (order.1 client.pausedPanes).map fun paneId =>
              ⟨.resume paneId, formatContinueLine paneId⟩ }
      else flushBlocks flags order now blocks client

def flushOutputQueue (flags : ControlClientFlags) (order : DrainOrder) (now : ℕ) :
    Bool × ControlClient :=
  if client.queue.transportClosed then (false, client)
  else flushBlocks flags order now client.queue.blocks client

end ControlClient

/-! ## Runs -/

/-- The flags of a client with extended output. -/
def ExtendedFlags := { flags : ControlClientFlags // flags.usesExtendedOutput = true }

/-- A call on a control client. -/
inductive ControlCall
  | paneEvent (flags : ExtendedFlags) (now : ℕ) (event : PaneEvent)
  | drain (flags : ExtendedFlags) (events : List (ℕ × PaneEvent))
  | enqueueLine (bytes : List UInt8) (output : Bool) (now : ℕ)
  | flush (flags : ExtendedFlags) (order : ControlClient.DrainOrder) (now : ℕ)

namespace ControlClient

def step (client : ControlClient) : ControlCall → ControlClient
  | .paneEvent flags now event => (client.handlePaneEvent flags.1 now event).2
  | .drain flags events => (drainReadyPaneEvents flags.1 events client).2
  | .enqueueLine bytes output now =>
    { client with queue := client.queue.enqueueLine .other bytes output now }
  | .flush flags order now => (client.flushOutputQueue flags.1 order now).2

def after (client : ControlClient) (calls : List ControlCall) : ControlClient :=
  calls.foldl step client

end ControlClient

end Rmux
