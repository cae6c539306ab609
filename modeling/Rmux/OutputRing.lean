import Mathlib.Algebra.BigOperators.Group.List.Basic
import Rmux.MachineInt

/-!
# The output ring of a pane

The output of a pane is appended to a ring as numbered events (`events/ring.rs`), and each
subscriber reads it with a cursor of its own (`events/cursor.rs`). Sequence numbers and byte counts
are 64-bit values. An append is refused when the sequence numbers are used up, where the source
panics.
-/

namespace Rmux

open MachineInt

/-- Shared bytes; a slice is at most `isize::MAX` bytes long. -/
structure SharedBytes where
  bytes : List UInt8
  length_le : bytes.length ≤ isizeMax
deriving DecidableEq

/-- Output with its sequence number. -/
structure OutputEvent where
  sequence : ℕ
  bytes : SharedBytes
deriving DecidableEq

def OutputEvent.byteLen (e : OutputEvent) : ℕ := e.bytes.bytes.length

/-! ## Recent bytes -/

/-- Where the bytes of an event start in a snapshot. -/
structure RecentOutputSnapshotChunk where
  sequence : ℕ
  start : ℕ
  startsAtEventStart : Bool
deriving DecidableEq

/-- The recent bytes, and which events they are from. -/
structure RecentOutputSnapshot where
  bytes : List UInt8
  oldestSequence : Option ℕ
  newestSequence : Option ℕ
  chunks : List RecentOutputSnapshotChunk
deriving DecidableEq

/-- The part of an event that is still among the recent bytes. -/
structure RecentLiveChunk where
  sequence : ℕ
  bytes : List UInt8
  start : ℕ
  stop : ℕ
  startsAtEventStart : Bool
deriving DecidableEq

/-- The recent bytes that are kept beside the events. -/
structure RecentLiveBuffer where
  capacity : ℕ
  len : ℕ
  chunks : List RecentLiveChunk
deriving DecidableEq

namespace RecentLiveBuffer

def new (capacity : ℕ) : RecentLiveBuffer := ⟨capacity, 0, []⟩

/-- Drop bytes from the front until at most `capacity` are left. A chunk that is cut leaves exactly
that many. -/
def trimFront (capacity : ℕ) : ℕ → List RecentLiveChunk → ℕ × List RecentLiveChunk
  | len, [] => (if capacity < len then 0 else len, [])
  | len, front :: rest =>
    if capacity < len then
      let overflow := len - capacity
      let frontLen := front.stop - front.start
      if frontLen ≤ overflow then trimFront capacity (len - frontLen) rest
      else
        let bytes := (front.bytes.take front.stop).drop (front.start + overflow)
        (len - overflow, ⟨front.sequence, bytes, 0, bytes.length, false⟩ :: rest)
    else (len, front :: rest)

def push (b : RecentLiveBuffer) (sequence : ℕ) (bytes : SharedBytes) : RecentLiveBuffer :=
  if bytes.bytes.isEmpty then b
  else if b.capacity ≤ bytes.bytes.length then
    let tail := bytes.bytes.drop (bytes.bytes.length - b.capacity)
    { b with
      len := b.capacity
      chunks := [⟨sequence, tail, 0, tail.length, bytes.bytes.length = b.capacity⟩] }
  else
    let chunk := ⟨sequence, bytes.bytes, 0, bytes.bytes.length, true⟩
    let (len, chunks) :=
      trimFront b.capacity (satAdd64 b.len bytes.bytes.length) (b.chunks ++ [chunk])
    { b with len, chunks }

def clear (b : RecentLiveBuffer) : RecentLiveBuffer := { b with len := 0, chunks := [] }

/-- The bytes of the chunks after `bytes`, and where each of them starts. -/
def snapshotFrom (bytes : List UInt8) : List RecentLiveChunk →
    List UInt8 × List RecentOutputSnapshotChunk
  | [] => (bytes, [])
  | chunk :: rest =>
    let (all, chunks) :=
      snapshotFrom (bytes ++ (chunk.bytes.take chunk.stop).drop chunk.start) rest
    (all, ⟨chunk.sequence, bytes.length, chunk.startsAtEventStart⟩ :: chunks)

/-- What a snapshot of the buffer shows. -/
def contents (b : RecentLiveBuffer) : RecentOutputSnapshot where
  bytes := (snapshotFrom [] b.chunks).1
  oldestSequence := b.chunks.head?.map RecentLiveChunk.sequence
  newestSequence := b.chunks.getLast?.map RecentLiveChunk.sequence
  chunks := (snapshotFrom [] b.chunks).2

/-- The bytes of a snapshot are one vector. The source panics (`none`) if they do not fit. -/
def snapshot (b : RecentLiveBuffer) : Option RecentOutputSnapshot :=
  if b.len ≤ isizeMax then some b.contents else none

end RecentLiveBuffer

/-! ## Cursors -/

/-- What a cursor is told that has fallen behind the oldest retained event. -/
structure OutputGap where
  expectedSequence : ℕ
  resumeSequence : ℕ
  missedEvents : ℕ
  newestSequence : ℕ
  recentSnapshot : RecentOutputSnapshot
deriving DecidableEq

/-- What a poll returns. -/
inductive OutputCursorItem
  | event (event : OutputEvent)
  | gap (gap : OutputGap)
deriving DecidableEq

def OutputCursorItem.isGap : OutputCursorItem → Bool
  | event _ => false
  | gap _ => true

/-- The next event of a subscriber, and how many it has missed. -/
structure OutputCursor where
  nextSequence : ℕ
  missedEvents : ℕ
deriving DecidableEq

namespace OutputCursor

def new (nextSequence : ℕ) : OutputCursor := ⟨nextSequence, 0⟩

def advanceTo (c : OutputCursor) (nextSequence : ℕ) : OutputCursor := { c with nextSequence }

/-- Move past `sequence` if it is the next one, whether it was appended or not. -/
def advancePastSequence (c : OutputCursor) (sequence : ℕ) : Bool × OutputCursor :=
  if c.nextSequence ≠ sequence then (false, c)
  else (true, { c with nextSequence := wrapAdd64 sequence 1 })

def recordGap (c : OutputCursor) (missed resumeSequence : ℕ) : OutputCursor :=
  ⟨resumeSequence, satAdd64 c.missedEvents missed⟩

end OutputCursor

/-! ## The ring -/

/-- The newest events, a bounded number of them with a bounded number of bytes. -/
structure OutputRing where
  eventCapacity : ℕ
  recentByteCapacity : ℕ
  eventCapacity_pos : 0 < eventCapacity
  recentByteCapacity_pos : 0 < recentByteCapacity
  retainedEventBytes : ℕ
  nextSequence : ℕ
  events : List OutputEvent
  recent : RecentLiveBuffer
deriving DecidableEq

namespace OutputRing

def new (eventCapacity recentByteCapacity : ℕ) (hevents : 0 < eventCapacity)
    (hbytes : 0 < recentByteCapacity) : OutputRing where
  eventCapacity := eventCapacity
  recentByteCapacity := recentByteCapacity
  eventCapacity_pos := hevents
  recentByteCapacity_pos := hbytes
  retainedEventBytes := 0
  nextSequence := 0
  events := []
  recent := .new recentByteCapacity

variable (r : OutputRing)

/-- The oldest retained sequence, or the next one if nothing is retained. -/
def oldestSequence : ℕ := (r.events.head?.map OutputEvent.sequence).getD r.nextSequence

def newestSequence : ℕ := r.nextSequence - 1

def popOldestEvent : OutputRing :=
  match r.events with
  | [] => r
  | event :: events =>
    { r with events, retainedEventBytes := r.retainedEventBytes - event.byteLen }

/-- The loop `while more { pop_oldest_event() }`, run for at most `fuel` rounds. -/
def popWhile (more : OutputRing → Bool) : ℕ → OutputRing → OutputRing
  | 0, r => r
  | fuel + 1, r => if more r then popWhile more fuel r.popOldestEvent else r

def tooManyEvents : Bool := r.eventCapacity < r.events.length

def tooManyBytes : Bool :=
  r.recentByteCapacity < r.retainedEventBytes && 1 < r.events.length

/-- Drop the oldest events until both budgets are met. Every round drops one. -/
def rotate : OutputRing :=
  let r := popWhile tooManyEvents r.events.length r
  popWhile tooManyBytes r.events.length r

/-- Append before anything is dropped. -/
def append (bytes : SharedBytes) (retainRecent : Bool) : OutputRing :=
  { r with
    nextSequence := r.nextSequence + 1
    recent := if retainRecent then r.recent.push r.nextSequence bytes else r.recent
    retainedEventBytes := satAdd64 r.retainedEventBytes bytes.bytes.length
    events := r.events ++ [⟨r.nextSequence, bytes⟩] }

def pushSharedWithRecentRetention (bytes : SharedBytes) (retainRecent : Bool) :
    Option (ℕ × OutputRing) :=
  if r.nextSequence + 1 ≤ u64Max then
    some (r.nextSequence, (r.append bytes retainRecent).rotate)
  else none

def clearRetained : OutputRing :=
  { r with events := [], retainedEventBytes := 0, recent := r.recent.clear }

def cursorFromOldest : OutputCursor := .new r.oldestSequence

def cursorFromNow : OutputCursor := .new r.nextSequence

def cursorFromSequence (sequence : ℕ) : OutputCursor := .new sequence

def recentSnapshot : Option RecentOutputSnapshot := r.recent.snapshot

/-- One item for the cursor; a gap is reported before the events that are retained. It carries what
the snapshot shows, also where the source panics because that is too long. -/
def pollCursor (cursor : OutputCursor) : Option OutputCursorItem × OutputCursor :=
  let next := cursor.nextSequence
  let oldest := r.oldestSequence
  if next < oldest then
    let missed := oldest - next
    (some (.gap ⟨next, oldest, missed, r.newestSequence, r.recent.contents⟩),
      cursor.recordGap missed oldest)
  else if r.nextSequence ≤ next then (none, cursor)
  else
    match r.events[next - oldest]? with
    | none => (none, cursor)
    | some event => (some (.event event), cursor.advanceTo (wrapAdd64 next 1))

def pollCursorBatch : ℕ → OutputCursor → List OutputCursorItem × OutputCursor
  | 0, cursor => ([], cursor)
  | limit + 1, cursor =>
    match r.pollCursor cursor with
    | (none, cursor) => ([], cursor)
    | (some item, cursor) =>
      if item.isGap then ([item], cursor)
      else
        let (items, cursor) := pollCursorBatch limit cursor
        (item :: items, cursor)

end OutputRing

end Rmux
