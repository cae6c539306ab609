import Rmux.ByteWait

/-!
# The recent bytes are the end of the output

The bytes that an output ring keeps for readers who fall behind are the last ones of the retained
pushes since the ring was cleared (`recent_bytes_are_tail`). The counter of the bytes saturates.
Where it does, the buffer stays full (`Overflows`), with more bytes than a snapshot can have.
-/

namespace Rmux

open MachineInt List

/-- A byte with the sequence of its push and whether it is the first byte of it. -/
abbrev TaggedByte := ℕ × Bool × UInt8

def tagged (sequence : ℕ) (starts : Bool) : List UInt8 → List TaggedByte
  | [] => []
  | byte :: bytes => (sequence, starts, byte) :: bytes.map (sequence, false, ·)

def RecentLiveChunk.tags (chunk : RecentLiveChunk) : List TaggedByte :=
  tagged chunk.sequence chunk.startsAtEventStart chunk.slice

/-- A call on the ring. -/
inductive RecentCall
  | push (bytes : SharedBytes) (retainRecent : Bool)
  | clear

/-- A ring, the pushes so far, and the bytes of the retained ones since it was cleared. -/
structure RecentRun where
  ring : OutputRing
  pushed : List SharedBytes
  retained : List TaggedByte

namespace RecentRun

def step (run : RecentRun) : RecentCall → Option RecentRun
  | .push bytes retainRecent =>
    (run.ring.pushSharedWithRecentRetention bytes retainRecent).map fun (sequence, ring) =>
      ⟨ring, run.pushed ++ [bytes],
        run.retained ++ if retainRecent then tagged sequence true bytes.bytes else []⟩
  | .clear => some ⟨run.ring.clearRetained, run.pushed, []⟩

def after (ring : OutputRing) (calls : List RecentCall) : Option RecentRun :=
  calls.foldlM step ⟨ring, [], []⟩

end RecentRun

/-! ## Tags -/

section Tags

variable {sequence : ℕ} {starts : Bool} {bytes : List UInt8} {chunk : RecentLiveChunk}

theorem length_tagged : (tagged sequence starts bytes).length = bytes.length := by
  cases bytes <;> simp [tagged]

theorem map_tagged : (tagged sequence starts bytes).map (·.2.2) = bytes := by
  cases bytes <;> simp [tagged, Function.comp_def]

theorem drop_tagged {n : ℕ} (hn : 0 < n) :
    (tagged sequence starts bytes).drop n = tagged sequence false (bytes.drop n) := by
  obtain ⟨n, rfl⟩ := Nat.exists_eq_add_one.mpr hn
  cases bytes with
  | nil => rfl
  | cons byte bytes =>
    rw [tagged, drop_succ_cons, drop_succ_cons, ← map_drop]
    cases bytes.drop n <;> rfl

theorem tags_whole : RecentLiveChunk.tags ⟨sequence, bytes, 0, bytes.length, starts⟩ =
    tagged sequence starts bytes := by
  rw [RecentLiveChunk.tags, RecentLiveChunk.slice, take_length, drop_zero]

theorem sequence_of_mem_tagged {tag : TaggedByte} (h : tag ∈ tagged sequence starts bytes) :
    tag.1 = sequence := by
  cases bytes with
  | nil => cases h
  | cons byte bytes =>
    rcases mem_cons.mp h with rfl | h
    · rfl
    · obtain ⟨byte, -, rfl⟩ := mem_map.mp h
      rfl

end Tags

/-! ## The buffer -/

section Buffer

variable {pushed : List SharedBytes} {chunks : List RecentLiveChunk} {len : ℕ}

/-- Trimming takes from the front what is counted above the capacity. -/
theorem trimFront_spec (capacity : ℕ) (h : ∀ c ∈ chunks, ChunkOf pushed c)
    (hlen : len ≤ (chunks.flatMap RecentLiveChunk.tags).length) :
    (RecentLiveBuffer.trimFront capacity len chunks).2.flatMap RecentLiveChunk.tags =
        (chunks.flatMap RecentLiveChunk.tags).drop (len - capacity) ∧
      (RecentLiveBuffer.trimFront capacity len chunks).1 = min len capacity := by
  induction chunks generalizing len with
  | nil =>
    obtain rfl : len = 0 := by simpa using hlen
    simp [RecentLiveBuffer.trimFront]
  | cons front r ih =>
    have hfront := h front mem_cons_self
    have hlength : front.tags.length = front.stop - front.start := by
      rw [RecentLiveChunk.tags, length_tagged, hfront.length_slice]
    rw [flatMap_cons, length_append] at hlen
    rw [RecentLiveBuffer.trimFront, flatMap_cons]
    dsimp only
    split_ifs with hover hdp
    · have hrest : len - (front.stop - front.start) ≤ (r.flatMap RecentLiveChunk.tags).length := by
        omega
      obtain ⟨htags, hmin⟩ := ih (fun c hc => h c (mem_cons_of_mem _ hc)) hrest
      refine ⟨?_, by rw [hmin]; omega⟩
      have hfst : front.tags.drop (len - capacity) = [] := drop_eq_nil_of_le (by omega)
      rw [htags, drop_append, hfst, nil_append, hlength, Nat.sub_right_comm]
    · refine ⟨?_, by omega⟩
      rw [flatMap_cons, drop_append_of_le_length (by omega), tags_whole, RecentLiveChunk.tags,
        drop_tagged (by omega), RecentLiveChunk.slice, drop_drop]
    · rw [Nat.sub_eq_zero_of_le (by omega), drop_zero]
      exact ⟨flatMap_cons, by omega⟩

/-- What a buffer holds of the retained bytes. -/
structure Holds (retained : List TaggedByte) (buffer : RecentLiveBuffer) : Prop where
  tags : buffer.chunks.flatMap RecentLiveChunk.tags = retained.rtake buffer.capacity
  len : buffer.len = (buffer.chunks.flatMap RecentLiveChunk.tags).length

/-- The counter of a buffer has saturated since it was cleared. It is full, and its capacity is more
than a vector can have. -/
structure Overflows (retained : List TaggedByte) (buffer : RecentLiveBuffer) : Prop where
  capacity_gt : isizeMax < buffer.capacity
  len : buffer.len = buffer.capacity
  len_le : buffer.len ≤ (buffer.chunks.flatMap RecentLiveChunk.tags).length
  capacity_le : buffer.capacity ≤ retained.length

variable {retained : List TaggedByte} {b : RecentLiveBuffer}

/-- A buffer that is counted as full is left full. -/
theorem trimFront_full {capacity : ℕ} (h : ∀ c ∈ chunks, ChunkOf pushed c) (hle : capacity ≤ len)
    (hlen : len ≤ (chunks.flatMap RecentLiveChunk.tags).length) :
    (RecentLiveBuffer.trimFront capacity len chunks).1 = capacity ∧
      capacity ≤ ((RecentLiveBuffer.trimFront capacity len chunks).2.flatMap
        RecentLiveChunk.tags).length := by
  obtain ⟨htags, hmin⟩ := trimFront_spec capacity h hlen
  refine ⟨hmin.trans (Nat.min_eq_right hle), ?_⟩
  rw [htags, length_drop]
  omega

/-- A push that does not fill the buffer by itself is put behind the chunks. -/
theorem length_concat_tags (hlen : b.len ≤ (b.chunks.flatMap RecentLiveChunk.tags).length)
    (sequence : ℕ) (bytes : List UInt8) : b.len + bytes.length ≤
      ((b.chunks ++ [(⟨sequence, bytes, 0, bytes.length, true⟩ : RecentLiveChunk)]).flatMap
        RecentLiveChunk.tags).length := by
  rw [flatMap_append, flatMap_singleton, tags_whole, length_append, length_tagged]
  omega

theorem Overflows.push (h : Overflows retained b) (hrecents : Recents pushed b.chunks)
    (hcap : b.capacity ≤ u64Max) (bytes : SharedBytes) :
    Overflows (retained ++ tagged pushed.length true bytes.bytes)
      (b.push pushed.length bytes) := by
  have hbs := bytes.length_le
  have hgt := h.capacity_gt
  have hret : b.capacity ≤ (retained ++ tagged pushed.length true bytes.bytes).length := by
    rw [length_append]
    exact h.capacity_le.trans (Nat.le_add_right ..)
  rw [RecentLiveBuffer.push]
  split_ifs with hemp hlarge
  · exact ⟨hgt, h.len, h.len_le, hret⟩
  · omega
  · have hsat : b.capacity ≤ satAdd64 b.len bytes.bytes.length :=
      le_min (h.len ▸ Nat.le_add_right ..) hcap
    obtain ⟨hfull, hle⟩ := trimFront_full (hrecents.concat (by simpa using hemp)).chunk hsat
      ((Nat.min_le_left ..).trans (length_concat_tags h.len_le pushed.length bytes.bytes))
    exact ⟨hgt, hfull, hfull.trans_le hle, hret⟩

theorem Holds.push (h : Holds retained b) (hrecents : Recents pushed b.chunks)
    (hcap : b.capacity ≤ u64Max) (bytes : SharedBytes) :
    Holds (retained ++ tagged pushed.length true bytes.bytes) (b.push pushed.length bytes) ∨
      Overflows (retained ++ tagged pushed.length true bytes.bytes)
        (b.push pushed.length bytes) := by
  rw [RecentLiveBuffer.push]
  split_ifs with hemp hlarge
  · rw [isEmpty_iff.mp hemp, tagged, append_nil]
    exact .inl h
  · refine .inl ?_
    have htags : tagged pushed.length (bytes.bytes.length = b.capacity)
        (bytes.bytes.drop (bytes.bytes.length - b.capacity)) =
        (retained ++ tagged pushed.length true bytes.bytes).rtake b.capacity := by
      rw [rtake_append, length_tagged, Nat.sub_eq_zero_of_le hlarge, rtake_zero,
        nil_append, rtake, length_tagged]
      rcases hlarge.eq_or_lt with heq | hlt
      · simp [heq]
      · rw [drop_tagged (by omega), decide_eq_false hlt.ne']
    constructor
    · rw [flatMap_singleton, tags_whole, htags]
    · rw [flatMap_singleton, tags_whole, length_tagged, length_drop]
      exact (Nat.sub_sub_self hlarge).symm
  · have hlen : b.len ≤ b.capacity := by
      rw [h.len, h.tags, length_rtake]
      exact Nat.min_le_right ..
    have hbs := bytes.length_le
    have hne : bytes.bytes ≠ [] := by simpa using hemp
    have hchunks := (hrecents.concat hne).chunk
    rcases lt_or_ge u64Max (b.len + bytes.bytes.length) with hover | hfits
    · -- the count stops at the largest number
      have hsat : satAdd64 b.len bytes.bytes.length = u64Max := Nat.min_eq_right hover.le
      have htotal := length_concat_tags h.len.le pushed.length bytes.bytes
      obtain ⟨hfull, hle⟩ := trimFront_full hchunks hcap (hover.le.trans htotal)
      rw [hsat]
      refine .inr ⟨?_, hfull, hfull.trans_le hle, ?_⟩
      · show isizeMax < b.capacity
        unfold u64Max at hover
        unfold isizeMax at hbs ⊢
        omega
      · show b.capacity ≤ _
        rw [length_append, length_tagged]
        have hret : b.len ≤ retained.length := by
          rw [h.len, h.tags, length_rtake]
          exact Nat.min_le_left ..
        omega
    refine .inl ?_
    have hsum : satAdd64 b.len bytes.bytes.length = b.len + bytes.bytes.length :=
      satAdd64_eq hfits
    have hgr : (b.chunks ++ [(⟨pushed.length, bytes.bytes, 0, bytes.bytes.length,
        true⟩ : RecentLiveChunk)]).flatMap RecentLiveChunk.tags =
        retained.rtake b.capacity ++ tagged pushed.length true bytes.bytes := by
      rw [flatMap_append, flatMap_singleton, tags_whole, h.tags]
    have hlength : b.len + bytes.bytes.length = (retained.rtake b.capacity ++
        tagged pushed.length true bytes.bytes).length := by
      rw [length_append, length_tagged, h.len, h.tags]
    obtain ⟨htags, hmin⟩ := trimFront_spec b.capacity hchunks (hlength.trans (by rw [hgr])).le
    rw [hgr, hlength, ← rtake] at htags
    rw [hsum]
    constructor
    · rw [hlength, htags, rtake_rtake_append]
    · refine hmin.trans ?_
      rw [hlength, htags, length_rtake]

end Buffer

/-! ## Snapshots -/

/-- A snapshot shows these bytes and which pushes they are from. -/
structure ShowsTail (snapshot : RecentOutputSnapshot) (tail : List TaggedByte) : Prop where
  bytes : snapshot.bytes = tail.map (·.2.2)
  sorted : (snapshot.chunks.map (·.sequence)).Pairwise (· < ·)
  fromSequence : ∀ m, snapshot.bytesFromSequence m = (tail.filter (m ≤ ·.1)).map (·.2.2)
  starts : ∀ s, snapshot.startsAtEventStart s = true ↔ ∃ byte, (s, true, byte) ∈ tail

section Snapshot

variable {pushed : List SharedBytes} {retained : List TaggedByte} {chunks : List RecentLiveChunk}

theorem map_tags (chunks : List RecentLiveChunk) :
    (chunks.flatMap RecentLiveChunk.tags).map (·.2.2) = chunks.flatMap RecentLiveChunk.slice := by
  rw [map_flatMap]
  exact flatMap_congr fun chunk _ => map_tagged

theorem filter_tags (h : Recents pushed chunks) (m : ℕ) :
    ((chunks.flatMap RecentLiveChunk.tags).filter (m ≤ ·.1)).map (·.2.2) =
      (chunksFrom m chunks).flatMap RecentLiveChunk.slice := by
  induction chunks with
  | nil => rfl
  | cons chunk r ih =>
    rw [chunksFrom_cons, flatMap_cons, filter_append]
    split_ifs with hle
    · rw [← filter_append, ← flatMap_cons, filter_eq_self.mpr, map_tags]
      intro tag htag
      obtain ⟨c, hc, htag⟩ := mem_flatMap.mp htag
      rw [sequence_of_mem_tagged htag]
      rcases mem_cons.mp hc with rfl | hc
      · simpa using hle
      · have := (pairwise_cons.mp h.sorted).1 c hc
        simp
        omega
    · rw [filter_eq_nil_iff.mpr, nil_append, ih h.tail]
      intro tag htag
      rw [sequence_of_mem_tagged htag]
      simpa using hle

theorem starts_iff (h : Recents pushed chunks) (bytes : List UInt8) (s : ℕ) :
    (((RecentLiveBuffer.snapshotFrom bytes chunks).2.find? fun chunk => chunk.sequence = s).any
        (·.startsAtEventStart)) = true ↔
      ∃ byte, (s, true, byte) ∈ chunks.flatMap RecentLiveChunk.tags := by
  induction chunks generalizing bytes with
  | nil => simp [RecentLiveBuffer.snapshotFrom]
  | cons chunk r ih =>
    rw [RecentLiveBuffer.snapshotFrom, flatMap_cons]
    by_cases hs : chunk.sequence = s
    · obtain ⟨first, tail, hsl⟩ := exists_cons_of_ne_nil (h.chunk chunk mem_cons_self).slice_ne_nil
      have hlater : ∀ byte, (s, true, byte) ∉ r.flatMap RecentLiveChunk.tags := by
        intro byte hmem
        obtain ⟨c, hc, hmem⟩ := mem_flatMap.mp hmem
        have hlt := (pairwise_cons.mp h.sorted).1 c hc
        rw [← sequence_of_mem_tagged hmem] at hlt
        omega
      rw [find?_cons_of_pos (by simpa using hs)]
      rw [RecentLiveChunk.tags, hsl, hs, tagged]
      simp [hlater]
    · rw [find?_cons_of_neg (by simpa using hs), ih h.tail]
      refine exists_congr fun byte => ?_
      rw [mem_append, or_iff_right]
      exact fun hmem => hs (sequence_of_mem_tagged hmem).symm

end Snapshot

/-! ## Runs -/

/-- What holds of a ring along its calls. -/
structure Tracks (capacity : ℕ) (run : RecentRun) : Prop where
  capacity : run.ring.recent.capacity = capacity
  remembers : run.ring.Remembers run.pushed
  holds : Holds run.retained run.ring.recent ∨ Overflows run.retained run.ring.recent

section Runs

variable {capacity : ℕ} {run run' : RecentRun} {c : RecentCall}

theorem Holds.showsTail {b : RecentLiveBuffer} {retained : List TaggedByte} (h : Holds retained b)
    {pushed : List SharedBytes} (hrecents : Recents pushed b.chunks) :
    ShowsTail b.contents (retained.rtake b.capacity) := by
  rw [← h.tags]
  refine ⟨?_, ?_, fun m => ?_, fun s => ?_⟩
  · exact (snapshotFrom_fst [] _).trans (map_tags _).symm
  · rw [RecentLiveBuffer.contents, sequences_snapshotFrom, pairwise_map]
    exact hrecents.sorted
  · rw [bytesFromSequence_contents, filter_tags hrecents]
  · rw [← starts_iff hrecents [] s, RecentOutputSnapshot.startsAtEventStart,
      RecentLiveBuffer.contents]
    cases (RecentLiveBuffer.snapshotFrom [] b.chunks).2.find? fun chunk =>
      chunk.sequence = s <;> simp

theorem Tracks.step (h : Tracks capacity run) (hcap : capacity ≤ u64Max)
    (hst : run.step c = some run') : Tracks capacity run' := by
  cases c with
  | clear =>
    cases hst
    exact ⟨h.capacity, h.remembers.clearRetained, .inl ⟨(rtake_nil _).symm, rfl⟩⟩
  | push bytes retainRecent =>
    obtain ⟨⟨sequence, ring⟩, hpu, rfl⟩ := Option.map_eq_some_iff.mp hst
    obtain ⟨rfl, hrec⟩ := OutputRing.recent_push h.remembers.retains hpu
    cases retainRecent with
    | true =>
      refine ⟨?_, h.remembers.push hpu, ?_⟩ <;> simp only [hrec, if_true]
      · rw [OutputRing.capacity_push, h.capacity]
      · exact h.holds.elim (·.push h.remembers.recents (h.capacity.trans_le hcap) bytes)
          fun hover => .inr (hover.push h.remembers.recents (h.capacity.trans_le hcap) bytes)
    | false =>
      refine ⟨?_, h.remembers.push hpu, ?_⟩ <;>
        simp only [hrec, Bool.false_eq_true, if_false, append_nil]
      · exact h.capacity
      · exact h.holds

theorem Tracks.foldlM (h : Tracks capacity run) (hcap : capacity ≤ u64Max)
    {cs : List RecentCall} (hrun : cs.foldlM RecentRun.step run = some run') :
    Tracks capacity run' := by
  induction cs generalizing run with
  | nil =>
    cases hrun
    exact h
  | cons c cs ih =>
    obtain ⟨next, hst, hrun⟩ := Option.bind_eq_some_iff.mp hrun
    exact ih (h.step hcap hst) hrun

end Runs

/-- A snapshot shows the last of the retained bytes, and is there unless they are too many for a
vector. -/
theorem recent_bytes_are_tail {eventCapacity recentByteCapacity : ℕ} (hevents : 0 < eventCapacity)
    (hbytes : 0 < recentByteCapacity) (hcapacity : recentByteCapacity ≤ u64Max)
    (calls : List RecentCall) {run : RecentRun}
    (hrun : RecentRun.after (.new eventCapacity recentByteCapacity hevents hbytes) calls =
      some run) :
    (∀ snapshot, run.ring.recentSnapshot = some snapshot →
      ShowsTail snapshot (run.retained.rtake recentByteCapacity)) ∧
    (run.ring.recentSnapshot = none ↔
      isizeMax < (run.retained.rtake recentByteCapacity).length) := by
  have hnew : Tracks recentByteCapacity
      ⟨.new eventCapacity recentByteCapacity hevents hbytes, [], []⟩ :=
    ⟨rfl, OutputRing.remembers_new hevents hbytes, .inl ⟨(rtake_nil _).symm, rfl⟩⟩
  obtain ⟨hcap, hremembers, hholds⟩ := hnew.foldlM hcapacity hrun
  rw [← hcap, OutputRing.recentSnapshot, RecentLiveBuffer.snapshot]
  rcases hholds with hholds | hover
  · rw [← hholds.tags, ← hholds.len]
    refine ⟨fun snapshot hsnapshot => ?_, by simp⟩
    obtain ⟨-, hsnapshot⟩ := Option.ite_none_right_eq_some.mp hsnapshot
    obtain rfl := Option.some.inj hsnapshot
    exact hholds.tags ▸ hholds.showsTail hremembers.recents
  · have hgt := hover.capacity_gt
    rw [if_neg (by rw [hover.len]; exact not_le.mpr hgt), length_rtake,
      Nat.min_eq_right hover.capacity_le]
    exact ⟨nofun, iff_of_true rfl hgt⟩

/-- Of the pushes `ab` and `cd` a ring for three bytes shows `bcd`. -/
theorem recent_bytes_of_two : ∃ run snapshot, RecentRun.after (.new 4 3 (by decide) (by decide))
    [.push ⟨[97, 98], by decide⟩ true, .push ⟨[99, 100], by decide⟩ true] = some run ∧
      run.ring.recentSnapshot = some snapshot ∧
      ShowsTail snapshot [(0, false, 98), (1, true, 99), (1, false, 100)] :=
  ⟨_, _, rfl, rfl, (recent_bytes_are_tail (by decide : 0 < 4) (by decide : 0 < 3) (by decide)
    [.push ⟨[97, 98], by decide⟩ true, .push ⟨[99, 100], by decide⟩ true] rfl).1 _ rfl⟩

end Rmux
