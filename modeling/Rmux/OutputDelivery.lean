import Mathlib.Logic.Relation
import Rmux.OutputRing
import Rmux.Tiling

/-!
# Delivery of pane output

The retained events are always a suffix of what was appended (`OutputRing.Retains`), and what a
reader has consumed tiles the sequence numbers from where it started (`Reader.Sound`). So every
sequence number below a cursor is accounted for exactly once (`delivered_exactly_once`). A cursor
does not know its ring : it can be moved past a sequence that is not appended yet, and is then ahead
of the ring (`delivery_fails_unrestricted`).
-/

namespace Rmux

open MachineInt Tiling Relation List Nat Bool
open Option hiding sequence

variable (pushed : List SharedBytes)

/-! ## What the ring retains -/

/-- The events appended to a ring, in order. -/
def appendedEvents (pushed : List SharedBytes) : List OutputEvent :=
  pushed.mapIdx fun sequence bytes => ⟨sequence, bytes⟩

theorem length_appendedEvents : (appendedEvents pushed).length = pushed.length := length_mapIdx

theorem getElem?_appendedEvents (i : ℕ) :
    (appendedEvents pushed)[i]? = pushed[i]?.map fun bs => ⟨i, bs⟩ :=
  getElem?_mapIdx

theorem appendedEvents_concat (bs : SharedBytes) :
    appendedEvents (pushed ++ [bs]) = appendedEvents pushed ++ [⟨pushed.length, bs⟩] := by
  simp [appendedEvents, mapIdx_append]

namespace OutputRing

variable {r r' : OutputRing} {pushed : List SharedBytes} {oldest : ℕ}

/-- The ring retains what was appended from `oldest` on. -/
structure Holds (r : OutputRing) (pushed : List SharedBytes) (oldest : ℕ) : Prop where
  nextSequence : r.nextSequence = pushed.length
  events : r.events = (appendedEvents pushed).drop oldest
  oldest_le : oldest ≤ pushed.length

variable (h : r.Holds pushed oldest)

include h

theorem Holds.length_events : r.events.length = pushed.length - oldest := by
  rw [h.events, length_drop, length_appendedEvents]

theorem Holds.getElem?_events (i : ℕ) :
    r.events[i]? = pushed[oldest + i]?.map fun bs => ⟨oldest + i, bs⟩ := by
  rw [h.events, getElem?_drop, getElem?_appendedEvents]

theorem Holds.oldestSequence_eq : r.oldestSequence = oldest := by
  have hhd := h.getElem?_events 0
  rw [← head?_eq_getElem?, add_zero] at hhd
  rw [oldestSequence, hhd, Option.map_map]
  rcases h.oldest_le.lt_or_eq with hlt | heq
  · simp [getElem?_eq_getElem hlt]
  · simp [heq, h.nextSequence]

/-- The retained events are numbered one after the other up to the next sequence. -/
theorem Holds.map_sequence :
    r.events.map OutputEvent.sequence = List.range' oldest (pushed.length - oldest) := by
  refine ext_getElem? fun i => ?_
  rw [getElem?_map, h.getElem?_events, Option.map_map]
  rcases lt_or_ge i (pushed.length - oldest) with hlt | hge
  · have hi : oldest + i < pushed.length := by omega
    simp [getElem?_eq_getElem hi, getElem?_range' hlt]
  · have hi : pushed.length ≤ oldest + i := by omega
    have hrange : (range' oldest (pushed.length - oldest))[i]? = none :=
      getElem?_eq_none (by simpa using hge)
    simp [getElem?_eq_none hi, hrange]

/-! ## Rotation -/

/-- Dropping the oldest event shortens what is retained from the front. -/
theorem Holds.popOldestEvent (hne : r.events ≠ []) :
    r.popOldestEvent.Holds pushed (oldest + 1) := by
  have hlen := h.length_events
  have hpos := length_pos_iff.mpr hne
  unfold OutputRing.popOldestEvent
  split
  · exact absurd ‹_› hne
  · rename_i event events hevs
    refine ⟨h.nextSequence, ?_, by omega⟩
    rw [← drop_drop, ← h.events, hevs]
    rfl

omit h

theorem popOldestEvent_capacities (r : OutputRing) :
    r.popOldestEvent.eventCapacity = r.eventCapacity ∧
      r.popOldestEvent.recentByteCapacity = r.recentByteCapacity := by
  unfold popOldestEvent
  split <;> exact ⟨rfl, rfl⟩

theorem length_popOldestEvent (r : OutputRing) :
    r.popOldestEvent.events.length = r.events.length - 1 := by
  unfold popOldestEvent
  split <;> simp [*]

/-- What a loop that drops events leaves : a ring in which nothing more is to be dropped, that
retains a part of what it did. -/
structure Popped (more : OutputRing → Bool) (pushed : List SharedBytes) (r r' : OutputRing) :
    Prop where
  done : more r' = false
  holds : ∃ oldest, r'.Holds pushed oldest
  length_le : r'.events.length ≤ r.events.length
  capacities : r'.eventCapacity = r.eventCapacity ∧ r'.recentByteCapacity = r.recentByteCapacity

variable {more : OutputRing → Bool}

theorem popWhile_popped (hmore : ∀ r : OutputRing, more r = true → r.events ≠ []) :
    ∀ (n : ℕ) {r : OutputRing} {oldest : ℕ}, r.Holds pushed oldest → r.events.length ≤ n →
      Popped more pushed r (popWhile more n r)
  | 0, r, oldest, h, hfu => by
    have hnil : r.events = [] := length_eq_zero_iff.mp (le_zero.mp hfu)
    refine ⟨?_, ⟨oldest, h⟩, le_rfl, rfl, rfl⟩
    exact eq_false_iff.mpr fun htrue => hmore r htrue hnil
  | n + 1, r, oldest, h, hfu => by
    rw [popWhile]
    split_ifs with hr
    · have hlen := length_popOldestEvent r
      have hrec := popWhile_popped hmore n (h.popOldestEvent (hmore r hr)) (by omega)
      obtain ⟨hevs, hbs⟩ := popOldestEvent_capacities r
      exact ⟨hrec.done, hrec.holds, hrec.length_le.trans (by omega),
        hrec.capacities.1.trans hevs, hrec.capacities.2.trans hbs⟩
    · exact ⟨eq_false_iff.mpr hr, ⟨oldest, h⟩, le_rfl, rfl, rfl⟩

theorem events_ne_nil_of_tooManyEvents (r : OutputRing) (h : r.tooManyEvents = true) :
    r.events ≠ [] := by
  rw [tooManyEvents, decide_eq_true_eq] at h
  exact length_pos_iff.mp (by omega)

theorem events_ne_nil_of_tooManyBytes (r : OutputRing) (h : r.tooManyBytes = true) :
    r.events ≠ [] := by
  rw [tooManyBytes, and_eq_true, decide_eq_true_eq, decide_eq_true_eq] at h
  exact length_pos_iff.mp (by omega)

/-- Rotation keeps a suffix of the events, no more than the ring is for. -/
theorem Holds.rotate (h : r.Holds pushed oldest) :
    (∃ oldest, r.rotate.Holds pushed oldest) ∧ r.rotate.events.length ≤ r.eventCapacity ∧
      r.rotate.tooManyBytes = false ∧ r.rotate.eventCapacity = r.eventCapacity ∧
      r.rotate.recentByteCapacity = r.recentByteCapacity := by
  have hfst := popWhile_popped events_ne_nil_of_tooManyEvents _ h le_rfl
  obtain ⟨oldest₁, h₁⟩ := hfst.holds
  have hsnd := popWhile_popped events_ne_nil_of_tooManyBytes _ h₁ le_rfl
  have hcnt := hfst.done
  rw [tooManyEvents, decide_eq_false_iff_not, not_lt, hfst.capacities.1] at hcnt
  exact ⟨hsnd.holds, hsnd.length_le.trans hcnt, hsnd.done,
    hsnd.capacities.1.trans hfst.capacities.1, hsnd.capacities.2.trans hfst.capacities.2⟩

/-! ## The count of retained bytes -/

/-- The bytes of the retained events. -/
def totalBytes (r : OutputRing) : ℕ := (r.events.map OutputEvent.byteLen).sum

/-- The counter of retained bytes is exact. -/
def Counted (r : OutputRing) : Prop := r.retainedEventBytes = r.totalBytes

theorem Counted.popOldestEvent (h : r.Counted) : r.popOldestEvent.Counted := by
  unfold Counted totalBytes at h ⊢
  unfold OutputRing.popOldestEvent
  split
  · exact h
  · rename_i event events hevs
    rw [hevs, map_cons, sum_cons] at h
    exact (congrArg (· - event.byteLen) h).trans (Nat.add_sub_cancel_left ..)

theorem Counted.popWhile : ∀ (n : ℕ) {r : OutputRing}, r.Counted → (popWhile more n r).Counted
  | 0, _, h => h
  | n + 1, r, h => by
    rw [OutputRing.popWhile]
    split_ifs
    · exact Counted.popWhile n h.popOldestEvent
    · exact h

/-- The retained bytes keep to their budget, but for an event that is alone. -/
def Budgeted (r : OutputRing) : Prop :=
  r.totalBytes ≤ r.recentByteCapacity ∨ r.events.length ≤ 1

theorem Counted.budgeted (h : r.Counted) (hdone : r.tooManyBytes = false) : r.Budgeted := by
  rw [tooManyBytes, and_eq_false_iff, decide_eq_false_iff_not, decide_eq_false_iff_not, not_lt,
    not_lt, h] at hdone
  exact hdone

theorem totalBytes_append (r : OutputRing) (bs : SharedBytes) (retainRecent : Bool) :
    (r.append bs retainRecent).totalBytes = r.totalBytes + bs.bytes.length := by
  simp [totalBytes, append, OutputEvent.byteLen]

/-- What is retained before an append keeps to its budget or is one slice. -/
theorem Budgeted.totalBytes_le (h : r.Budgeted) :
    r.totalBytes ≤ r.recentByteCapacity ∨ r.totalBytes ≤ isizeMax := by
  refine h.imp_right fun hlen => ?_
  unfold totalBytes
  match hevs : r.events with
  | [] => simp
  | [event] => simpa [OutputEvent.byteLen] using event.bytes.length_le
  | _ :: _ :: _ =>
    rw [hevs] at hlen
    simp only [length_cons] at hlen
    omega

theorem Counted.append (h : r.Counted) (hbudget : r.Budgeted) {bs : SharedBytes}
    (hfits : r.recentByteCapacity + bs.bytes.length ≤ u64Max) (retainRecent : Bool) :
    (r.append bs retainRecent).Counted := by
  have hbs := bs.length_le
  unfold Counted
  rw [totalBytes_append, ← h]
  refine satAdd64_eq ?_
  rw [h]
  rcases hbudget.totalBytes_le with htotal | htotal
  · omega
  · exact (Nat.add_le_add htotal hbs).trans (by decide)

/-! ## What holds of a ring -/

/-- The byte capacity and any of these slices together fit in a `usize`. -/
def Fits (r : OutputRing) (pushed : List SharedBytes) : Prop :=
  ∀ bytes ∈ pushed, r.recentByteCapacity + bytes.bytes.length ≤ u64Max

/-- What is retained of the events appended so far. -/
structure Retains (r : OutputRing) (pushed : List SharedBytes) : Prop where
  holds : ∃ oldest, r.Holds pushed oldest
  nextSequence_le : r.nextSequence ≤ u64Max
  length_le : r.events.length ≤ r.eventCapacity
  bytes : r.Fits pushed → r.Counted ∧ r.Budgeted

theorem retains_new {eventCapacity recentByteCapacity : ℕ} (hevs : 0 < eventCapacity)
    (hbs : 0 < recentByteCapacity) :
    (new eventCapacity recentByteCapacity hevs hbs).Retains [] where
  holds := ⟨0, rfl, rfl, le_rfl⟩
  nextSequence_le := zero_le _
  length_le := zero_le _
  bytes _ := ⟨rfl, .inl (zero_le _)⟩

theorem Retains.push (h : r.Retains pushed) {bs : SharedBytes} {retainRecent : Bool}
    {seq : ℕ} (hpu : r.pushSharedWithRecentRetention bs retainRecent =
      some (seq, r')) : r'.Retains (pushed ++ [bs]) := by
  rw [pushSharedWithRecentRetention] at hpu
  split_ifs at hpu with hrm
  obtain ⟨-, rfl⟩ : _ ∧ (r.append bs retainRecent).rotate = r' := by simpa using hpu
  obtain ⟨oldest, hh⟩ := h.holds
  have happ : (r.append bs retainRecent).Holds (pushed ++ [bs]) oldest := by
    refine ⟨by simp [append, hh.nextSequence], ?_, by
      simpa using hh.oldest_le.trans (le_succ _)⟩
    have hle : oldest ≤ (appendedEvents pushed).length := by
      rw [length_appendedEvents]
      exact hh.oldest_le
    rw [appendedEvents_concat, drop_append_of_le_length hle, ← hh.events, ← hh.nextSequence]
    rfl
  obtain ⟨⟨oldest', hrotate⟩, hlen, hdone, hevs, hcap⟩ := happ.rotate
  refine ⟨⟨oldest', hrotate⟩, ?_, hevs ▸ hlen, fun hle => ?_⟩
  · rw [hrotate.nextSequence, length_append, ← hh.nextSequence]
    exact hrm
  · have hfits : r.Fits (pushed ++ [bs]) := fun bytes hbytes => hcap ▸ hle bytes hbytes
    obtain ⟨hcnt, hbudget⟩ := h.bytes fun bytes hbytes => hfits bytes (mem_append_left _ hbytes)
    have hcnt' : (r.append bs retainRecent).rotate.Counted :=
      .popWhile _ (.popWhile _ (hcnt.append hbudget (hfits bs mem_concat_self) retainRecent))
    exact ⟨hcnt', hcnt'.budgeted hdone⟩

theorem Retains.clearRetained (h : r.Retains pushed) : r.clearRetained.Retains pushed := by
  obtain ⟨oldest, hh⟩ := h.holds
  refine ⟨⟨pushed.length, hh.nextSequence, ?_, le_rfl⟩, h.nextSequence_le, zero_le _,
    fun _ => ⟨rfl, .inl (zero_le _)⟩⟩
  exact (drop_eq_nil_of_le (length_appendedEvents pushed).le).symm

theorem Retains.nextSequence_eq (h : r.Retains pushed) : r.nextSequence = pushed.length :=
  h.holds.choose_spec.nextSequence

theorem Retains.oldestSequence_le (h : r.Retains pushed) : r.oldestSequence ≤ pushed.length := by
  obtain ⟨oldest, hh⟩ := h.holds
  rw [hh.oldestSequence_eq]
  exact hh.oldest_le

/-- A poll yields nothing from the next sequence on; before it, it yields the event at the cursor,
or the gap up to the oldest one retained. -/
theorem Retains.pollCursor_cases (h : r.Retains pushed) (cursor : OutputCursor) :
    pushed.length ≤ cursor.nextSequence ∧ r.pollCursor cursor = (none, cursor) ∨
    (∃ bs, pushed[cursor.nextSequence]? = some bs ∧
      r.pollCursor cursor = (some (.event ⟨cursor.nextSequence, bs⟩),
        cursor.advanceTo (cursor.nextSequence + 1))) ∨
    ∃ gap : OutputGap, gap.expectedSequence = cursor.nextSequence ∧
      gap.expectedSequence < gap.resumeSequence ∧ gap.resumeSequence ≤ pushed.length ∧
      gap.missedEvents = gap.resumeSequence - gap.expectedSequence ∧
      r.pollCursor cursor =
        (some (.gap gap), cursor.recordGap gap.missedEvents gap.resumeSequence) := by
  obtain ⟨oldest, hh⟩ := h.holds
  have hle := h.nextSequence_le
  rw [hh.nextSequence] at hle
  unfold pollCursor
  dsimp only
  rw [hh.oldestSequence_eq, hh.nextSequence]
  split_ifs with hlagged hcaught
  · exact .inr (.inr ⟨⟨_, _, _, _, _⟩, rfl, hlagged, hh.oldest_le, rfl, rfl⟩)
  · exact .inl ⟨hcaught, rfl⟩
  · have hlt : cursor.nextSequence < pushed.length := not_le.mp hcaught
    have hoff : oldest + (cursor.nextSequence - oldest) = cursor.nextSequence := by omega
    rw [hh.getElem?_events, hoff, getElem?_eq_getElem hlt, map_some]
    refine .inr (.inl ⟨_, rfl, ?_⟩)
    rw [wrapAdd64_eq (by omega)]

end OutputRing

/-! ## Readers -/

/-- What a cursor did : it yielded an item, or was moved past a sequence. -/
inductive Consumption
  | item (item : OutputCursorItem)
  | passed (sequence : ℕ)

namespace Consumption

/-- The sequence numbers that are consumed. -/
def span : Consumption → ℕ × ℕ
  | item (.event e) => (e.sequence, e.sequence + 1)
  | item (.gap g) => (g.expectedSequence, g.resumeSequence)
  | passed sequence => (sequence, sequence + 1)

/-- The sequence numbers that are reported as missed. -/
def missed : Consumption → ℕ
  | item (.gap g) => g.resumeSequence - g.expectedSequence
  | _ => 0

theorem missed_le (c : Consumption) : c.missed ≤ c.span.2 - c.span.1 := by
  rcases c with (_ | _) | _
  · exact Nat.zero_le _
  · exact le_rfl
  · exact Nat.zero_le _

end Consumption

/-- A cursor, where it started and what it did since. -/
structure Reader where
  start : ℕ
  cursor : OutputCursor
  log : List Consumption

namespace Reader

def opened (cursor : OutputCursor) : Reader := ⟨cursor.nextSequence, cursor, []⟩

/-- The reader after its cursor yielded items. -/
def yielded (reader : Reader) : List OutputCursorItem × OutputCursor → Reader
  | (items, cursor) => { reader with cursor, log := reader.log ++ items.map .item }

def poll (ring : OutputRing) (reader : Reader) : Reader :=
  reader.yielded ((ring.pollCursor reader.cursor).1.toList, (ring.pollCursor reader.cursor).2)

def pollBatch (ring : OutputRing) (limit : ℕ) (reader : Reader) : Reader :=
  reader.yielded (ring.pollCursorBatch limit reader.cursor)

def advancePast (sequence : ℕ) (reader : Reader) : Reader :=
  match reader.cursor.advancePastSequence sequence with
  | (true, cursor) => { reader with cursor, log := reader.log ++ [.passed sequence] }
  | (false, cursor) => { reader with cursor }

/-- What was consumed accounts for the sequence numbers from the start up to the cursor. -/
structure Sound (pushed : List SharedBytes) (reader : Reader) : Prop where
  tiles : Tiles Consumption.span reader.start reader.cursor.nextSequence reader.log
  next_le : reader.cursor.nextSequence ≤ pushed.length
  carried : ∀ e, .item (.event e) ∈ reader.log → pushed[e.sequence]? = some e.bytes
  reported : ∀ g, .item (.gap g) ∈ reader.log →
    g.missedEvents = g.resumeSequence - g.expectedSequence ∧ g.resumeSequence ≤ pushed.length
  missed : reader.cursor.missedEvents = (reader.log.map Consumption.missed).sum

variable {pushed : List SharedBytes} {reader : Reader} {ring : OutputRing}

variable {cursor : OutputCursor}

theorem sound_opened (hnx : cursor.nextSequence ≤ pushed.length)
    (hmiss : cursor.missedEvents = 0) : (opened cursor).Sound pushed where
  tiles := rfl
  next_le := hnx
  carried _ he := by cases he
  reported _ hg := by cases hg
  missed := hmiss

/-- An append does not change what the readers have. -/
theorem Sound.push (h : reader.Sound pushed) (bs : SharedBytes) :
    reader.Sound (pushed ++ [bs]) := by
  have hlen : pushed.length ≤ (pushed ++ [bs]).length := by simp
  refine ⟨h.tiles, h.next_le.trans hlen, fun e he => ?_, fun g hg => ?_, h.missed⟩
  · have hcar := h.carried e he
    rwa [getElem?_append_left (List.getElem?_eq_some_iff.mp hcar).1]
  · exact ⟨(h.reported g hg).1, (h.reported g hg).2.trans hlen⟩

theorem Sound.missedEvents_le (h : reader.Sound pushed) :
    reader.cursor.missedEvents ≤ reader.cursor.nextSequence := by
  rw [h.missed]
  exact (h.tiles.sum_le fun c _ => c.missed_le).trans (sub_le ..)

/-- A reader consumes what comes next. -/
theorem Sound.consume (h : reader.Sound pushed) {c : Consumption}
    (hst : c.span.1 = reader.cursor.nextSequence)
    (hlt : reader.cursor.nextSequence < c.span.2) (hsp : cursor.nextSequence = c.span.2)
    (hmax : c.span.2 ≤ pushed.length)
    (hcar : ∀ e, c = .item (.event e) → pushed[e.sequence]? = some e.bytes)
    (hreported : ∀ g, c = .item (.gap g) →
      g.missedEvents = g.resumeSequence - g.expectedSequence ∧ g.resumeSequence ≤ pushed.length)
    (hmiss : cursor.missedEvents = reader.cursor.missedEvents + c.missed) :
    Sound pushed { reader with cursor, log := reader.log ++ [c] } := by
  have hmem : ∀ c', c' ∈ reader.log ++ [c] → c' ∈ reader.log ∨ c = c' := by
    intro c' hc'
    simpa [eq_comm] using hc'
  refine ⟨?_, hsp.trans_le hmax, fun e he => ?_, fun g hg => ?_, ?_⟩
  · exact hsp.symm ▸ h.tiles.concat hst hlt
  · exact (hmem _ he).elim (h.carried e) (hcar e)
  · exact (hmem _ hg).elim (h.reported g) (hreported g)
  · rw [hmiss, h.missed]
    simp

/-- One poll. -/
theorem Sound.poll (h : reader.Sound pushed) (hring : ring.Retains pushed) :
    (reader.poll ring).Sound pushed := by
  have hlen : pushed.length ≤ u64Max := hring.nextSequence_eq ▸ hring.nextSequence_le
  unfold Reader.poll
  rcases hring.pollCursor_cases reader.cursor with ⟨-, hpl⟩ | ⟨bs, hbs, hpl⟩ |
    ⟨gap, hexp, hlt, hresume, hmiss, hpl⟩
  · rw [hpl]
    simpa [yielded] using h
  · have hnx : reader.cursor.nextSequence < pushed.length :=
      (List.getElem?_eq_some_iff.mp hbs).1
    rw [hpl]
    refine h.consume rfl (lt_succ_self _) rfl (succ_le_of_lt hnx) ?_ ?_ rfl
    · rintro e ⟨rfl⟩
      exact hbs
    · rintro g ⟨⟩
  · rw [hpl]
    refine h.consume hexp (hexp ▸ hlt) rfl hresume ?_ ?_ ?_
    · rintro e ⟨⟩
    · rintro g ⟨rfl⟩
      exact ⟨hmiss, hresume⟩
    · -- The gaps are below the cursor, so their total does not saturate.
      have hle := h.missedEvents_le
      rw [Consumption.missed, ← hmiss]
      exact satAdd64_eq (by omega)

/-- A batch is a poll for each of its items, and one that yields nothing at its end. -/
theorem Sound.pollBatch (hring : ring.Retains pushed) :
    ∀ (limit : ℕ) {reader : Reader}, reader.Sound pushed → (reader.pollBatch ring limit).Sound pushed
  | 0, reader, h => by simpa [Reader.pollBatch, OutputRing.pollCursorBatch, yielded] using h
  | limit + 1, reader, h => by
    have hpl := h.poll hring
    unfold Reader.poll at hpl
    unfold Reader.pollBatch OutputRing.pollCursorBatch
    rcases hitem : ring.pollCursor reader.cursor with ⟨_ | item, cursor⟩
    · rw [hitem] at hpl
      exact hpl
    · rw [hitem] at hpl
      dsimp only
      split_ifs
      · exact hpl
      · have hr := Sound.pollBatch hring limit hpl
        simpa [Reader.pollBatch, yielded] using hr

theorem Sound.advancePast (h : reader.Sound pushed) {seq : ℕ} (hlen : pushed.length ≤ u64Max)
    (hseq : seq < pushed.length) : (reader.advancePast seq).Sound pushed := by
  unfold Reader.advancePast OutputCursor.advancePastSequence
  by_cases hnx : reader.cursor.nextSequence = seq
  · have hwrap : wrapAdd64 seq 1 = seq + 1 := wrapAdd64_eq (by omega)
    rw [if_neg (not_not.mpr hnx)]
    refine h.consume hnx.symm (hnx ▸ lt_succ_self _) hwrap hseq ?_ ?_ rfl
    · rintro e ⟨⟩
    · rintro g ⟨⟩
  · simpa [hnx] using h

end Reader

/-! ## Feeds -/

/-- A ring, what was appended to it, and its readers. -/
structure Feed where
  ring : OutputRing
  pushed : List SharedBytes
  readers : List Reader

/-- What writers and readers do. -/
inductive FeedOp
  | push (bytes : SharedBytes) (retainRecent : Bool)
  | clearRetained
  | openOldest
  | openNow
  | openSequence (sequence : ℕ)
  | poll (reader : ℕ)
  | pollBatch (reader limit : ℕ)
  | advancePast (reader sequence : ℕ)

namespace Feed

def new (eventCapacity recentByteCapacity : ℕ) (hevents : 0 < eventCapacity)
    (hbytes : 0 < recentByteCapacity) : Feed :=
  ⟨.new eventCapacity recentByteCapacity hevents hbytes, [], []⟩

variable (f : Feed)

/-- One more reader. -/
def subscribe (cursor : OutputCursor) : Feed :=
  { f with readers := f.readers ++ [.opened cursor] }

def onReader (i : ℕ) (g : Reader → Reader) : Feed := { f with readers := f.readers.modify i g }

/-- Carry out an operation. An append fails when the sequence numbers are used up, and a cursor is
not opened beyond the next sequence. -/
def run : FeedOp → Option Feed
  | .push bytes retainRecent =>
    (f.ring.pushSharedWithRecentRetention bytes retainRecent).map fun (_, ring) =>
      { f with ring, pushed := f.pushed ++ [bytes] }
  | .clearRetained => some { f with ring := f.ring.clearRetained }
  | .openOldest => some (f.subscribe f.ring.cursorFromOldest)
  | .openNow => some (f.subscribe f.ring.cursorFromNow)
  | .openSequence sequence =>
    if sequence ≤ f.ring.nextSequence then
      some (f.subscribe (OutputRing.cursorFromSequence sequence))
    else none
  | .poll i => some (f.onReader i (Reader.poll f.ring))
  | .pollBatch i limit => some (f.onReader i (Reader.pollBatch f.ring limit))
  | .advancePast i sequence => some (f.onReader i (Reader.advancePast sequence))

/-- What holds of a feed through every run. -/
structure Sound : Prop where
  ring : f.ring.Retains f.pushed
  readers : ∀ reader ∈ f.readers, reader.Sound f.pushed

variable {f}

theorem Sound.subscribe (h : f.Sound) {seq : ℕ} (hle : seq ≤ f.pushed.length) :
    (f.subscribe (.new seq)).Sound := by
  refine ⟨h.ring, fun reader hrd => ?_⟩
  rcases mem_append.mp hrd with hrd | hrd
  · exact h.readers reader hrd
  · obtain rfl := mem_singleton.mp hrd
    exact Reader.sound_opened hle rfl

theorem Sound.onReader (h : f.Sound) (i : ℕ) {g : Reader → Reader}
    (hg : ∀ reader : Reader, reader.Sound f.pushed → (g reader).Sound f.pushed) :
    (f.onReader i g).Sound := by
  refine ⟨h.ring, fun reader hrd => ?_⟩
  obtain ⟨j, hj⟩ := getElem?_of_mem hrd
  rw [Feed.onReader, getElem?_modify, Option.map_eq_map, map_eq_some_iff] at hj
  obtain ⟨reader₀, hreader₀, rfl⟩ := hj
  have hsnd := h.readers reader₀ (mem_of_getElem? hreader₀)
  split_ifs
  · exact hg reader₀ hsnd
  · exact hsnd

/-- Every operation keeps the feed sound, if it moves no cursor past what is appended. -/
theorem Sound.run (h : f.Sound) {op : FeedOp}
    (hpassed : ∀ i sequence, op = .advancePast i sequence → sequence < f.ring.nextSequence)
    {f' : Feed} (hrun : f.run op = some f') : f'.Sound := by
  cases op with
  | push bs retainRecent =>
    simp only [Feed.run, map_eq_some_iff] at hrun
    obtain ⟨⟨seq, ring⟩, hpu, rfl⟩ := hrun
    exact ⟨h.ring.push hpu, fun reader hrd => (h.readers reader hrd).push bs⟩
  | clearRetained =>
    obtain rfl := some.inj hrun
    exact ⟨h.ring.clearRetained, h.readers⟩
  | openOldest =>
    obtain rfl := some.inj hrun
    exact h.subscribe h.ring.oldestSequence_le
  | openNow =>
    obtain rfl := some.inj hrun
    exact h.subscribe h.ring.nextSequence_eq.le
  | openSequence seq =>
    simp only [Feed.run, ite_none_right_eq_some, some.injEq] at hrun
    obtain ⟨hle, rfl⟩ := hrun
    exact h.subscribe (h.ring.nextSequence_eq ▸ hle)
  | poll i =>
    obtain rfl := some.inj hrun
    exact h.onReader i fun _ hrd => hrd.poll h.ring
  | pollBatch i limit =>
    obtain rfl := some.inj hrun
    exact h.onReader i fun _ hrd => .pollBatch h.ring limit hrd
  | advancePast i seq =>
    obtain rfl := some.inj hrun
    have hseq := hpassed i seq rfl
    have hlen := h.ring.nextSequence_le
    rw [h.ring.nextSequence_eq] at hseq hlen
    exact h.onReader i fun _ hrd => hrd.advancePast hlen hseq

end Feed

/-! ## The runs -/

/-- Some operation is carried out. -/
def FeedStep (f f' : Feed) : Prop := ∃ op, f.run op = some f'

/-- Some operation is carried out, and a cursor is moved past an appended event only. -/
def OrdinaryFeedStep (f f' : Feed) : Prop :=
  ∃ op, (∀ i sequence, op = FeedOp.advancePast i sequence → sequence < f.ring.nextSequence) ∧
    f.run op = some f'

/-- The retained events are numbered one after the other up to the next sequence and keep to the
capacities of the ring. The bytes are counted in a `usize`. -/
structure RetainedInBudget (f : Feed) : Prop where
  contiguous : f.ring.events.map OutputEvent.sequence =
    List.range' f.ring.oldestSequence f.ring.events.length
  newest : f.ring.oldestSequence + f.ring.events.length = f.ring.nextSequence
  appended : f.ring.nextSequence = f.pushed.length
  events_le : f.ring.events.length ≤ f.ring.eventCapacity
  bytes_le : f.ring.Fits f.pushed →
    f.ring.totalBytes ≤ f.ring.recentByteCapacity ∨ f.ring.events.length ≤ 1

/-- What a reader consumed accounts for every sequence number from its start up to its cursor. -/
structure DeliveredOnce (f : Feed) (reader : Reader) : Prop where
  accounted : ∀ n, reader.start ≤ n → n < reader.cursor.nextSequence →
    ∃! k : ℕ, ∃ c, reader.log[k]? = some c ∧ Covers Consumption.span c n
  below : ∀ c ∈ reader.log, ∀ n, Covers Consumption.span c n →
    reader.start ≤ n ∧ n < reader.cursor.nextSequence
  increasing : reader.log.Pairwise fun c c' =>
    ∀ m n, Covers Consumption.span c m → Covers Consumption.span c' n → m < n
  carried : ∀ e, .item (.event e) ∈ reader.log → f.pushed[e.sequence]? = some e.bytes
  missed : reader.cursor.missedEvents = (reader.log.map Consumption.missed).sum
  caughtUp : (f.ring.pollCursor reader.cursor).1 = none →
    reader.cursor.nextSequence = f.ring.nextSequence

theorem Feed.Sound.retainedInBudget {f : Feed} (h : f.Sound) : RetainedInBudget f := by
  obtain ⟨oldest, hh⟩ := h.ring.holds
  have hlen := hh.length_events
  have hle := hh.oldest_le
  refine ⟨?_, ?_, hh.nextSequence, h.ring.length_le, fun hcap => (h.ring.bytes hcap).2⟩
  · rw [hh.oldestSequence_eq, hlen]
    exact hh.map_sequence
  · rw [hh.oldestSequence_eq, hh.nextSequence]
    omega

theorem Feed.Sound.deliveredOnce {f : Feed} (h : f.Sound) {reader : Reader}
    (hrd : reader ∈ f.readers) : DeliveredOnce f reader := by
  have hsnd := h.readers reader hrd
  refine ⟨fun n => hsnd.tiles.existsUnique, fun c hc n hn => ?_, ?_, hsnd.carried,
    hsnd.missed, fun hnone => ?_⟩
  · obtain ⟨hst, hsp⟩ := hsnd.tiles.bounds hc
    exact ⟨hst.trans hn.1, hn.2.trans_le hsp⟩
  · exact hsnd.tiles.pairwise.imp fun hlt m n hm hn => hm.2.trans_le (hlt.trans hn.1)
  · rw [h.ring.nextSequence_eq]
    rcases h.ring.pollCursor_cases reader.cursor with ⟨hle, -⟩ | ⟨_, _, hpl⟩ |
      ⟨_, _, _, _, _, hpl⟩
    · exact le_antisymm hsnd.next_le hle
    · simp [hpl] at hnone
    · simp [hpl] at hnone

/-- In every run the ring keeps to its capacities, and each reader is given every event once or told
that it missed it. -/
theorem delivered_exactly_once {eventCapacity recentByteCapacity : ℕ} (hevents : 0 < eventCapacity)
    (hbytes : 0 < recentByteCapacity) {f : Feed}
    (hrun : ReflTransGen OrdinaryFeedStep (.new eventCapacity recentByteCapacity hevents hbytes) f) :
    RetainedInBudget f ∧ ∀ reader ∈ f.readers, DeliveredOnce f reader := by
  have hsound : f.Sound := by
    induction hrun with
    | refl => exact ⟨OutputRing.retains_new hevents hbytes, fun _ hreader => by cases hreader⟩
    | tail _ hstep ih =>
      obtain ⟨op, hop, hrun⟩ := hstep
      exact ih.run hop hrun
  exact ⟨hsound.retainedInBudget, fun reader hreader => hsound.deliveredOnce hreader⟩

/-- An event is appended and a reader polls it. -/
theorem delivered_exactly_once_poll :
    ∃ f reader e, ReflTransGen OrdinaryFeedStep (.new 1 1 Nat.one_pos Nat.one_pos) f ∧
      f.readers = [reader] ∧ reader.log = [.item (.event e)] ∧ DeliveredOnce f reader := by
  have hrun : ∃ f reader e, ReflTransGen OrdinaryFeedStep (.new 1 1 one_pos one_pos) f ∧
      f.readers = [reader] ∧ reader.log = [.item (.event e)] :=
    ⟨_, _, _, .tail (.tail (.single ⟨.openOldest, by simp, rfl⟩)
      ⟨.push ⟨[97], by decide⟩ true, by simp, rfl⟩) ⟨.poll 0, by simp, rfl⟩, rfl, rfl⟩
  obtain ⟨f, reader, e, hrun, hreaders, hlog⟩ := hrun
  exact ⟨f, reader, e, hrun, hreaders, hlog,
    (delivered_exactly_once _ _ hrun).2 reader (hreaders ▸ mem_singleton_self reader)⟩

/-- A cursor of an empty ring is moved past the first sequence, and is then ahead of the ring. -/
theorem delivery_fails_unrestricted :
    ∃ f reader, ReflTransGen FeedStep (.new 1 1 Nat.one_pos Nat.one_pos) f ∧ f.pushed = [] ∧
      f.readers = [reader] ∧ reader.log = [.passed 0] ∧ ¬DeliveredOnce f reader := by
  refine ⟨_, _, .tail (.single ⟨.openNow, rfl⟩) ⟨.advancePast 0 0, rfl⟩, rfl, rfl, rfl, ?_⟩
  exact fun h => absurd (h.caughtUp rfl) (by decide)

end Rmux
