import Mathlib.Data.List.Induction
import Mathlib.Data.List.Infix
import Rmux.ListLemmas
import Rmux.OutputDelivery

/-!
# Waiting for bytes in the output of a pane

A wait reads the output of a pane with a cursor and looks for a needle (`handler_waits.rs`). It
keeps the last bytes that could begin the needle. After a gap it goes on from the recent bytes, and
so joins bytes that were never next to each other : what is still retained is delivered once more,
and what is not among the recent bytes is missing. It is sound while it joins nothing of that kind
(`WaitRun.Seamless`, `byte_wait_is_sound`).
-/

namespace Rmux

open MachineInt List Option Nat RecentLiveChunk RecentLiveBuffer

variable {pushed : List SharedBytes} {chunk : RecentLiveChunk} {i j : ℕ} {bytes : List UInt8}

/-! ## Recent bytes by sequence -/

namespace RecentOutputSnapshot

variable (snapshot : RecentOutputSnapshot)

def bytesFromSequence (minSequence : ℕ) : List UInt8 :=
  snapshot.bytes.drop (((snapshot.chunks.find? fun chunk =>
    minSequence ≤ chunk.sequence).map RecentOutputSnapshotChunk.start).getD snapshot.bytes.length)

def oldestSequenceAtOrAfter (minSequence : ℕ) : Option ℕ :=
  (snapshot.chunks.find? fun chunk => minSequence ≤ chunk.sequence).map
    RecentOutputSnapshotChunk.sequence

def startsAtEventStart (sequence : ℕ) : Bool :=
  match snapshot.chunks.find? fun chunk => chunk.sequence = sequence with
  | some chunk => chunk.startsAtEventStart
  | none => false

end RecentOutputSnapshot

/-! ## The matcher -/

variable (n minSequence : ℕ)

/-- The stretches of `n` bytes. -/
def windows (bytes : List UInt8) : List (List UInt8) :=
  (List.range (bytes.length + 1 - n)).map fun i => (bytes.drop i).take n

/-- Look for the needle in the bytes kept so far and new ones. The result is whether it is there,
and the bytes that are kept. -/
def observeBytes (needle tail bytes : List UInt8) : Bool × List UInt8 :=
  if bytes.isEmpty then (false, tail)
  else
    let combined := tail ++ bytes
    let matched := (windows needle.length combined).any fun candidate => candidate = needle
    let keep := needle.length - 1
    (matched, if keep = 0 then [] else if combined.length ≤ keep then combined
      else combined.drop (combined.length - keep))

def observeGap (needle tail : List UInt8) (gap : OutputGap) : Bool × List UInt8 :=
  let expected := gap.expectedSequence
  let recent := gap.recentSnapshot
  let startsAtExpected := recent.oldestSequenceAtOrAfter expected = some expected ∧
    recent.startsAtEventStart expected
  observeBytes needle (if startsAtExpected then tail else []) (recent.bytesFromSequence expected)

def observeCursorItem (needle tail : List UInt8) : OutputCursorItem → Bool × List UInt8
  | .event event => observeBytes needle tail event.bytes.bytes
  | .gap gap => observeGap needle tail gap

/-! ## Runs -/

/-- A ring with all that was pushed to it, and a wait with what it has read. A wait that has matched
reads no more. -/
structure WaitRun where
  ring : OutputRing
  pushed : List SharedBytes
  cursor : OutputCursor
  tail : List UInt8
  matched : Bool
  items : List OutputCursorItem

/-- What happens while a wait runs. -/
inductive WaitOp
  | push (bytes : SharedBytes) (retainRecent : Bool)
  | clear
  | poll
deriving DecidableEq

namespace WaitRun

/-- A wait that is armed at a sequence, on a new ring. Armed later, it only begins to poll then. -/
def new (ring : OutputRing) (sequence : ℕ) : WaitRun :=
  ⟨ring, [], .new sequence, [], false, []⟩

def poll (needle : List UInt8) (run : WaitRun) : WaitRun :=
  match run.ring.pollCursor run.cursor with
  | (none, cursor) => { run with cursor }
  | (some item, cursor) =>
    let (matched, tail) := observeCursorItem needle run.tail item
    { run with cursor, tail, matched, items := run.items ++ [item] }

/-- A push is refused where the source panics. -/
def step (needle : List UInt8) (run : WaitRun) : WaitOp → Option WaitRun
  | .push bytes retainRecent =>
    (run.ring.pushSharedWithRecentRetention bytes retainRecent).map fun (_, ring) =>
      { run with ring, pushed := run.pushed ++ [bytes] }
  | .clear => some { run with ring := run.ring.clearRetained }
  | .poll => some (if run.matched then run else run.poll needle)

end WaitRun

/-! ## Searching -/

theorem mem_windows {needle : List UInt8} :
    needle ∈ windows needle.length bytes ↔ needle <:+: bytes := by
  simp only [windows, List.mem_map, mem_range]
  constructor
  · rintro ⟨i, -, hi⟩
    rw [← hi]
    exact (IsPrefix.isInfix <| take_prefix _ _).trans (drop_suffix _ _).isInfix
  · rintro ⟨before, after, rfl⟩
    refine ⟨before.length, ?_, ?_⟩
    · simp only [length_append]
      omega
    · rw [append_assoc, drop_left, take_left]

/-- What is kept : as many of the last bytes as could begin the needle. -/
def lastBytes (bytes : List UInt8) : List UInt8 := bytes.drop (bytes.length - n)

theorem observeBytes_eq (needle tail : List UInt8) (h : bytes ≠ []) :
    observeBytes needle tail bytes =
      (decide (needle <:+: tail ++ bytes), lastBytes (needle.length - 1) (tail ++ bytes)) := by
  rw [observeBytes, if_neg (by simpa using h)]
  refine Prod.ext ?_ ?_
  · rw [Bool.eq_iff_iff]
    simp [← mem_windows]
  · simp only [lastBytes]
    split_ifs with hz hsh
    · rw [hz]
      simp
    · rw [Nat.sub_eq_zero_of_le hsh, drop_zero]
    · rfl

theorem observeBytes_nil (needle tail : List UInt8) : observeBytes needle tail [] = (false, tail) :=
  rfl

theorem lastBytes_suffix (bytes : List UInt8) : lastBytes n bytes <:+ bytes :=
  drop_suffix _ _

/-- A needle that is not in what came before is found in the last bytes of it and the new ones. -/
theorem infix_append_iff {needle before : List UInt8} (h : ¬ needle <:+: before) :
    needle <:+: before ++ bytes ↔
      needle <:+: lastBytes (needle.length - 1) before ++ bytes := by
  constructor
  · rintro ⟨x, y, hxy⟩
    -- the needle ends in the new bytes
    have hend : before.length < x.length + needle.length := by
      by_contra hle
      have hsm : x ++ needle <+: before := prefix_of_prefix_length_le ⟨y, hxy⟩
        (prefix_append before bytes) (by simpa using hle)
      exact h ((suffix_append x needle).isInfix.trans hsm.isInfix)
    have hst : before.length - (needle.length - 1) ≤ x.length := by omega
    refine ⟨x.drop (before.length - (needle.length - 1)), y, ?_⟩
    have hdp := congrArg (drop (before.length - (needle.length - 1))) hxy
    rw [append_assoc, drop_append_of_le_length hst, drop_append_of_le_length (by omega)] at hdp
    rw [append_assoc, hdp, lastBytes]
  · intro hin
    exact hin.trans (suffix_append_self_iff.mpr (lastBytes_suffix _ before)).isInfix

/-- What is kept is what would be kept of all bytes. -/
theorem lastBytes_append (before bytes : List UInt8) :
    lastBytes n (lastBytes n before ++ bytes) = lastBytes n (before ++ bytes) :=
  rtake_rtake_append before bytes n

/-! ## The recent bytes of a ring -/

def RecentLiveChunk.slice (chunk : RecentLiveChunk) : List UInt8 :=
  (chunk.bytes.take chunk.stop).drop chunk.start

/-- A chunk is the end of an event, or all of it. -/
structure ChunkOf (pushed : List SharedBytes) (chunk : RecentLiveChunk) : Prop where
  event : ∃ bytes, pushed[chunk.sequence]? = some bytes ∧ chunk.slice <:+ bytes.bytes ∧
    (chunk.startsAtEventStart = true → chunk.slice = bytes.bytes)
  start_lt : chunk.start < chunk.stop
  stop_le : chunk.stop ≤ chunk.bytes.length

theorem ChunkOf.push (h : ChunkOf pushed chunk) (bytes : SharedBytes) :
    ChunkOf (pushed ++ [bytes]) chunk := by
  obtain ⟨event, hev, hsl⟩ := h.event
  refine ⟨⟨event, ?_, hsl⟩, h.start_lt, h.stop_le⟩
  rw [getElem?_append_left (List.getElem?_eq_some_iff.mp hev).1]
  exact hev

theorem ChunkOf.length_slice (h : ChunkOf pushed chunk) :
    chunk.slice.length = chunk.stop - chunk.start := by
  have := h.stop_le
  rw [slice, length_drop, length_take]
  omega

theorem ChunkOf.slice_ne_nil (h : ChunkOf pushed chunk) : chunk.slice ≠ [] := by
  have := h.start_lt
  exact ne_nil_of_length_pos (by rw [h.length_slice]; omega)

/-- Chunks of the output in its order, all but the first one whole. -/
structure Recents (pushed : List SharedBytes) (chunks : List RecentLiveChunk) : Prop where
  chunk : ∀ c ∈ chunks, ChunkOf pushed c
  whole : ∀ c ∈ chunks.tail, c.startsAtEventStart = true
  sorted : chunks.Pairwise fun a b => a.sequence < b.sequence

namespace Recents

variable {pushed : List SharedBytes} {chunk : RecentLiveChunk} {chunks : List RecentLiveChunk}

theorem push (h : Recents pushed chunks) (bytes : SharedBytes) :
    Recents (pushed ++ [bytes]) chunks :=
  ⟨fun c hc => (h.chunk c hc).push bytes, h.whole, h.sorted⟩

theorem tail (h : Recents pushed (chunk :: chunks)) : Recents pushed chunks :=
  ⟨fun c hc => h.chunk c (mem_cons_of_mem _ hc),
    fun c hc => h.whole c (mem_of_mem_tail hc), (pairwise_cons.mp h.sorted).2⟩

/-- Trimming drops chunks from the front and cuts the first that is left. -/
theorem trimFront (h : Recents pushed chunks) (cap len : ℕ) :
    Recents pushed (RecentLiveBuffer.trimFront cap len chunks).2 := by
  induction chunks generalizing len with
  | nil => exact h
  | cons front rest ih =>
    rw [RecentLiveBuffer.trimFront]
    dsimp only
    split_ifs with hover hdp
    · exact ih h.tail _
    · have hfront := h.chunk front mem_cons_self
      obtain ⟨bytes, hev, hsuf, -⟩ := hfront.event
      have hcut : (front.bytes.take front.stop).drop (front.start + (len - cap)) =
          front.slice.drop (len - cap) := by
        rw [slice, drop_drop]
      have hlen := hfront.length_slice
      refine ⟨fun c hc => ?_, h.whole, pairwise_cons.mpr
        ⟨(pairwise_cons.mp h.sorted).1, (pairwise_cons.mp h.sorted).2⟩⟩
      rcases mem_cons.mp hc with rfl | hc
      · refine ⟨⟨bytes, hev, ?_, nofun⟩, ?_, le_rfl⟩
        · rw [slice, take_length, drop_zero, hcut]
          exact (drop_suffix _ _).trans hsuf
        · show 0 < ((front.bytes.take front.stop).drop (front.start + (len - cap))).length
          rw [hcut, length_drop, hlen]
          omega
      · exact h.chunk c (mem_cons_of_mem _ hc)
    · exact h

theorem whole_chunk {bytes : SharedBytes} (hne : bytes.bytes ≠ []) :
    ChunkOf (pushed ++ [bytes]) ⟨pushed.length, bytes.bytes, 0, bytes.bytes.length, true⟩ where
  event := by
    refine ⟨bytes, by simp, ?_, fun _ => ?_⟩ <;> simp [slice]
  start_lt := length_pos_iff.mpr hne
  stop_le := le_rfl

theorem concat (h : Recents pushed chunks) {bytes : SharedBytes} (hne : bytes.bytes ≠ []) :
    Recents (pushed ++ [bytes])
      (chunks ++ [⟨pushed.length, bytes.bytes, 0, bytes.bytes.length, true⟩]) where
  chunk c hc := by
    rcases mem_append.mp hc with hc | hc
    · exact (h.chunk c hc).push bytes
    · rw [mem_singleton.mp hc]
      exact whole_chunk hne
  whole c hc := by
    cases chunks with
    | nil => cases hc
    | cons first rest =>
      rcases mem_append.mp hc with hc | hc
      · exact h.whole c hc
      · rw [mem_singleton.mp hc]
  sorted := by
    refine pairwise_append.mpr ⟨h.sorted, pairwise_singleton _ _, fun a ha b hb => ?_⟩
    rw [mem_singleton.mp hb]
    obtain ⟨event, hev, -⟩ := (h.chunk a ha).event
    exact (List.getElem?_eq_some_iff.mp hev).1

theorem bufferPush {b : RecentLiveBuffer} (h : Recents pushed b.chunks)
    (hcap : 0 < b.capacity) (bytes : SharedBytes) :
    Recents (pushed ++ [bytes]) (b.push pushed.length bytes).chunks := by
  rw [RecentLiveBuffer.push]
  split_ifs with hemp hlarge
  · exact h.push bytes
  · -- only the end of the event is kept
    have hlen : (bytes.bytes.drop (bytes.bytes.length - b.capacity)).length =
        b.capacity := by
      rw [length_drop]
      omega
    refine ⟨fun c hc => ?_, nofun, pairwise_singleton _ _⟩
    rw [mem_singleton.mp hc]
    refine ⟨⟨bytes, by simp, ?_, fun hst => ?_⟩, ?_, le_rfl⟩
    · rw [slice, take_length, drop_zero]
      exact drop_suffix _ _
    · have hall : bytes.bytes.length = b.capacity := by simpa using hst
      simp [slice, hall]
    · show 0 < _
      rw [hlen]
      exact hcap
  · exact (h.concat (by simpa using hemp)).trimFront _ _

end Recents

/-! ## What a gap brings -/

/-- The chunks from a sequence on. -/
def chunksFrom (chunks : List RecentLiveChunk) : List RecentLiveChunk :=
  chunks.dropWhile fun chunk => chunk.sequence < minSequence

theorem snapshotFrom_fst (bytes : List UInt8) (chunks : List RecentLiveChunk) :
    (RecentLiveBuffer.snapshotFrom bytes chunks).1 =
      bytes ++ chunks.flatMap RecentLiveChunk.slice := by
  induction chunks generalizing bytes with
  | nil => exact (append_nil bytes).symm
  | cons chunk rest ih =>
    rw [snapshotFrom]
    exact (ih _).trans (by rw [flatMap_cons, append_assoc, slice])

theorem chunksFrom_cons (chunks : List RecentLiveChunk) : chunksFrom minSequence (chunk :: chunks) =
      if minSequence ≤ chunk.sequence then chunk :: chunks else chunksFrom minSequence chunks := by
  rw [chunksFrom, dropWhile_cons]
  by_cases hle : minSequence ≤ chunk.sequence <;> simp [hle, chunksFrom]

theorem drop_snapshotFrom (bytes : List UInt8) (chunks : List RecentLiveChunk) :
    (RecentLiveBuffer.snapshotFrom bytes chunks).1.drop
        ((((RecentLiveBuffer.snapshotFrom bytes chunks).2.find? fun chunk =>
          minSequence ≤ chunk.sequence).map RecentOutputSnapshotChunk.start).getD
          (RecentLiveBuffer.snapshotFrom bytes chunks).1.length) =
      (chunksFrom minSequence chunks).flatMap RecentLiveChunk.slice := by
  induction chunks generalizing bytes with
  | nil => simp [snapshotFrom, chunksFrom]
  | cons chunk rest ih =>
    rw [chunksFrom_cons]
    split_ifs with hle
    · rw [snapshotFrom_fst]
      simp [snapshotFrom, hle]
    · rw [← ih (bytes ++ chunk.slice)]
      simp [snapshotFrom, hle, slice]

theorem bytesFromSequence_contents (b : RecentLiveBuffer) (minSequence : ℕ) :
    b.contents.bytesFromSequence minSequence =
      (chunksFrom minSequence b.chunks).flatMap RecentLiveChunk.slice :=
  drop_snapshotFrom minSequence [] b.chunks

theorem sequences_snapshotFrom (bytes : List UInt8) (chunks : List RecentLiveChunk) :
    (RecentLiveBuffer.snapshotFrom bytes chunks).2.map RecentOutputSnapshotChunk.sequence =
      chunks.map RecentLiveChunk.sequence := by
  induction chunks generalizing bytes with
  | nil => rfl
  | cons chunk rest ih => rw [snapshotFrom, map_cons, map_cons, ih]

theorem oldest_snapshotFrom (bytes : List UInt8) (chunks : List RecentLiveChunk) :
    ((RecentLiveBuffer.snapshotFrom bytes chunks).2.find? fun chunk =>
        minSequence ≤ chunk.sequence).map RecentOutputSnapshotChunk.sequence =
      (chunksFrom minSequence chunks).head?.map RecentLiveChunk.sequence := by
  induction chunks generalizing bytes with
  | nil => rfl
  | cons chunk rest ih =>
    rw [chunksFrom_cons]
    split_ifs with hle
    · simp [snapshotFrom, hle]
    · rw [← ih (bytes ++ chunk.slice)]
      simp [snapshotFrom, hle, slice]

/-- A chunk that is found for a sequence is the first from that sequence on. -/
theorem starts_snapshotFrom {sequence : ℕ} (bytes : List UInt8) {chunks rest : List RecentLiveChunk}
    (hfrom : chunksFrom sequence chunks = chunk :: rest) (hseq : chunk.sequence = sequence) :
    ((RecentLiveBuffer.snapshotFrom bytes chunks).2.find? fun chunk =>
        chunk.sequence = sequence).map RecentOutputSnapshotChunk.startsAtEventStart =
      some chunk.startsAtEventStart := by
  induction chunks generalizing bytes with
  | nil => cases hfrom
  | cons first others ih =>
    rw [chunksFrom_cons] at hfrom
    split_ifs at hfrom with hle
    · cases hfrom
      simp [snapshotFrom, hseq]
    · have hne : first.sequence ≠ sequence := by omega
      rw [← ih (bytes ++ first.slice) hfrom]
      simp [snapshotFrom, hne, slice]

/-- The bytes of the output from a sequence on. -/
def bytesOf (events : List SharedBytes) : List UInt8 := events.flatMap SharedBytes.bytes

/-- Between two of the sequences, one after the other, nothing was written. -/
def Adjoining (pushed : List SharedBytes) (sequences : List ℕ) : Prop :=
  sequences.IsChain fun a b => ∀ i bytes, a < i → i < b → pushed[i]? = some bytes →
    bytes.bytes = []

theorem bytesOf_drop_eq {bytes : SharedBytes} (h : pushed[i]? = some bytes) :
    bytesOf (pushed.drop i) = bytes.bytes ++ bytesOf (pushed.drop (i + 1)) := by
  obtain ⟨hi, rfl⟩ := List.getElem?_eq_some_iff.mp h
  rw [drop_eq_getElem_cons hi]
  rfl

theorem bytesOf_drop_of_empty (hij : i ≤ j)
    (h : ∀ k bytes, i ≤ k → k < j → pushed[k]? = some bytes → bytes.bytes = []) :
    bytesOf (pushed.drop i) = bytesOf (pushed.drop j) := by
  induction j, hij using le_induction with
  | base => rfl
  | succ j hij ih =>
    rw [ih fun k bytes hk hkj => h k bytes hk (by omega)]
    cases hev : pushed[j]? with
    | none =>
      have hlen := getElem?_eq_none_iff.mp hev
      rw [drop_eq_nil_of_le hlen, drop_eq_nil_of_le (by omega)]
    | some bytes => rw [bytesOf_drop_eq hev, h j bytes hij (by omega) hev, nil_append]

namespace Recents

variable {pushed : List SharedBytes} {chunk : RecentLiveChunk} {chunks : List RecentLiveChunk}

theorem chunksFrom (h : Recents pushed chunks) (minSequence : ℕ) :
    Recents pushed (chunksFrom minSequence chunks) := by
  have hsuf : Rmux.chunksFrom minSequence chunks <:+ chunks := dropWhile_suffix _
  refine ⟨fun c hc => h.chunk c (hsuf.subset hc), fun c hc => ?_, h.sorted.sublist hsuf.sublist⟩
  obtain ⟨before, hbef⟩ := hsuf
  refine h.whole c ?_
  rw [← hbef]
  cases before with
  | nil => exact hc
  | cons first before => exact mem_append_right _ (mem_of_mem_tail hc)

/-- Whole chunks with nothing missing between them are the output. -/
theorem slices_output (hch : ∀ c ∈ chunks, ChunkOf pushed c ∧ c.startsAtEventStart = true)
    {sequence : ℕ} (hjoin : Adjoining pushed (sequence :: chunks.map RecentLiveChunk.sequence))
    (hsrt : ∀ c ∈ chunks, sequence < c.sequence)
    (hpair : chunks.Pairwise fun a b => a.sequence < b.sequence) :
    chunks.flatMap RecentLiveChunk.slice <+: bytesOf (pushed.drop (sequence + 1)) := by
  induction chunks generalizing sequence with
  | nil => exact nil_prefix
  | cons chunk rest ih =>
    obtain ⟨hchunk, hwhole⟩ := hch chunk mem_cons_self
    obtain ⟨bytes, hev, -, hsl⟩ := hchunk.event
    obtain ⟨hgap, hjoin⟩ := isChain_cons_cons.mp hjoin
    obtain ⟨hlater, hpair⟩ := pairwise_cons.mp hpair
    have hless := hsrt chunk mem_cons_self
    rw [flatMap_cons, hsl hwhole,
      bytesOf_drop_of_empty hless fun k event hk => hgap k event (by omega),
      bytesOf_drop_eq hev]
    exact (prefix_append_right_inj _).mpr
      (ih (fun c hc => hch c (mem_cons_of_mem _ hc)) hjoin hlater hpair)

/-- Chunks with nothing missing between them are output that follows on the beginning of the first
one. -/
theorem slices_tail_output (h : Recents pushed (chunk :: chunks))
    (hjoin : Adjoining pushed ((chunk :: chunks).map RecentLiveChunk.sequence)) :
    chunks.flatMap RecentLiveChunk.slice <+: bytesOf (pushed.drop (chunk.sequence + 1)) :=
  slices_output (fun c hc => ⟨h.chunk c (mem_cons_of_mem _ hc), h.whole c hc⟩) hjoin
    (pairwise_cons.mp h.sorted).1 (pairwise_cons.mp h.sorted).2

end Recents

/-! ## What a match shows -/

theorem append_infix {a b c d : List UInt8} (hac : a <:+ c) (hbd : b <+: d) :
    a ++ b <:+: c ++ d := by
  obtain ⟨x, rfl⟩ := hac
  obtain ⟨y, rfl⟩ := hbd
  exact ⟨x, y, by simp⟩

/-- Output up to a sequence, and from it on. -/
theorem bytesOf_drop_split (pushed : List SharedBytes) (hij : i ≤ j) :
    bytesOf (pushed.drop i) = bytesOf ((pushed.take j).drop i) ++ bytesOf (pushed.drop j) := by
  rw [bytesOf, bytesOf, bytesOf, ← flatMap_append]
  conv_lhs => rw [← take_append_drop j pushed]
  rw [drop_append]
  obtain hlg | hsh := le_total j pushed.length
  · rw [length_take, min_eq_left hlg, Nat.sub_eq_zero_of_le hij, drop_zero]
  · rw [drop_eq_nil_of_le hsh, drop_nil]

theorem bytesOf_drop_suffix (pushed : List SharedBytes) (hij : i ≤ j) :
    bytesOf (pushed.drop j) <:+ bytesOf (pushed.drop i) := by
  rw [bytesOf_drop_split pushed hij]
  exact suffix_append _ _

theorem bytesOf_grows (pushed : List SharedBytes) (bytes : SharedBytes) (i : ℕ) :
    bytesOf (pushed.drop i) <+: bytesOf ((pushed ++ [bytes]).drop i) := by
  rw [drop_append, bytesOf, bytesOf, flatMap_append]
  exact prefix_append _ _

/-- The recent bytes that a gap brings. -/
def OutputGap.brought (gap : OutputGap) : List UInt8 :=
  gap.recentSnapshot.bytesFromSequence gap.expectedSequence

/-- The sequences these bytes are from. -/
def OutputGap.sequences (gap : OutputGap) : List ℕ :=
  (gap.recentSnapshot.chunks.map RecentOutputSnapshotChunk.sequence).dropWhile fun sequence =>
    sequence < gap.expectedSequence

section Gap

variable {needle tail : List UInt8} {pushed : List SharedBytes} {b : RecentLiveBuffer}
  {gap : OutputGap} {sequence : ℕ}

theorem brought_eq (hgap : gap.recentSnapshot = b.contents) : gap.brought =
      (chunksFrom gap.expectedSequence b.chunks).flatMap RecentLiveChunk.slice := by
  rw [OutputGap.brought, hgap, bytesFromSequence_contents]

theorem sequences_eq (hgap : gap.recentSnapshot = b.contents) : gap.sequences =
      (chunksFrom gap.expectedSequence b.chunks).map RecentLiveChunk.sequence := by
  rw [OutputGap.sequences, hgap, contents, sequences_snapshotFrom, chunksFrom, dropWhile_map]
  rfl

/-- Whether the recent bytes begin with the event the wait expected. -/
def startsAtExpected (gap : OutputGap) : Prop :=
  gap.recentSnapshot.oldestSequenceAtOrAfter gap.expectedSequence = some gap.expectedSequence ∧
    gap.recentSnapshot.startsAtEventStart gap.expectedSequence

instance (gap : OutputGap) : Decidable (startsAtExpected gap) :=
  inferInstanceAs (Decidable (_ ∧ _))

theorem observeGap_eq (needle tail : List UInt8) (gap : OutputGap) : observeGap needle tail gap =
      observeBytes needle (if startsAtExpected gap then tail else []) gap.brought := rfl

/-- Then the first chunk is that event. -/
theorem chunk_of_startsAtExpected (hgap : gap.recentSnapshot = b.contents)
    (hsts : startsAtExpected gap) :
    ∃ chunk rest, chunksFrom gap.expectedSequence b.chunks = chunk :: rest ∧
      chunk.sequence = gap.expectedSequence ∧ chunk.startsAtEventStart = true := by
  obtain ⟨holdest, hst⟩ := hsts
  rw [hgap, RecentOutputSnapshot.oldestSequenceAtOrAfter, contents] at holdest
  rw [oldest_snapshotFrom] at holdest
  cases hfrom : chunksFrom gap.expectedSequence b.chunks with
  | nil => simp [hfrom] at holdest
  | cons chunk rest =>
    have hseq : chunk.sequence = gap.expectedSequence := by simpa [hfrom] using holdest
    refine ⟨chunk, rest, rfl, hseq, ?_⟩
    have hf := starts_snapshotFrom [] hfrom hseq
    rw [hgap, RecentOutputSnapshot.startsAtEventStart, contents] at hst
    cases hfind : (snapshotFrom [] b.chunks).2.find? fun chunk =>
        chunk.sequence = gap.expectedSequence with
    | none => simp [hfind] at hf
    | some found =>
      simp only [hfind] at hst hf
      rw [← some.inj hf]
      exact hst

theorem sequence_of_chunksFrom {chunks rest : List RecentLiveChunk} {minSequence : ℕ}
    (h : chunksFrom minSequence chunks = chunk :: rest) : minSequence ≤ chunk.sequence := by
  have hhd := head?_dropWhile_not (fun chunk : RecentLiveChunk =>
    decide (chunk.sequence < minSequence)) chunks
  rw [chunksFrom] at h
  rw [h] at hhd
  simpa using hhd

/-- A gap that leaves nothing out between its bytes matches only what was written. -/
theorem observeGap_sound (hgap : gap.recentSnapshot = b.contents)
    (hrec : Recents pushed b.chunks) (hle : sequence ≤ gap.expectedSequence)
    (htail : tail <:+ bytesOf ((pushed.take gap.expectedSequence).drop sequence))
    (hjoin : Adjoining pushed gap.sequences) (h : (observeGap needle tail gap).1 = true) :
    needle <:+: bytesOf (pushed.drop sequence) := by
  rw [observeGap_eq, brought_eq hgap] at h
  rw [sequences_eq hgap] at hjoin
  have hfrom := hrec.chunksFrom gap.expectedSequence
  cases hch : chunksFrom gap.expectedSequence b.chunks with
  | nil => simp [hch, observeBytes] at h
  | cons chunk rest =>
    rw [hch] at h hjoin hfrom
    have hchunk := hfrom.chunk chunk mem_cons_self
    have hr := hfrom.slices_tail_output hjoin
    obtain ⟨bytes, hev, hsuf, hwhole⟩ := hchunk.event
    rw [flatMap_cons, observeBytes_eq _ _ (by simp [hchunk.slice_ne_nil])] at h
    refine (of_decide_eq_true h).trans ?_
    split_ifs with hsts
    · obtain ⟨chunk', rest', hch', hseq, hst⟩ := chunk_of_startsAtExpected hgap hsts
      rw [hch] at hch'
      cases hch'
      rw [bytesOf_drop_split pushed hle, ← hseq, bytesOf_drop_eq hev, hwhole hst, hseq]
      rw [hseq] at hr
      exact append_infix htail ((prefix_append_right_inj _).mpr hr)
    · have hlater := sequence_of_chunksFrom hch
      refine List.IsInfix.trans ?_ (bytesOf_drop_suffix pushed (hle.trans hlater)).isInfix
      rw [bytesOf_drop_eq hev, nil_append]
      exact append_infix hsuf hr

/-- One byte is found only where it was written. -/
theorem observeGap_byte (hgap : gap.recentSnapshot = b.contents)
    (hrec : Recents pushed b.chunks) (hle : sequence ≤ gap.expectedSequence)
    (hndl : needle.length = 1) (h : (observeGap needle [] gap).1 = true) :
    needle <:+: bytesOf (pushed.drop sequence) := by
  obtain ⟨byte, rfl⟩ := length_eq_one_iff.mp hndl
  rw [observeGap_eq, ite_self, brought_eq hgap] at h
  have hfrom := hrec.chunksFrom gap.expectedSequence
  generalize hbs : (chunksFrom gap.expectedSequence b.chunks).flatMap
    slice = bytes at h
  have hne : bytes ≠ [] := by
    rintro rfl
    simp [observeBytes] at h
  rw [observeBytes_eq _ _ hne] at h
  have hb : byte ∈ bytes := (of_decide_eq_true h).subset (mem_singleton_self byte)
  rw [← hbs] at hb
  obtain ⟨chunk, hchunk, hb⟩ := mem_flatMap.mp hb
  obtain ⟨event, hev, hsuf, -⟩ := (hfrom.chunk chunk hchunk).event
  have hlater : gap.expectedSequence ≤ chunk.sequence := by
    have hsrt := hfrom.sorted
    cases hch : chunksFrom gap.expectedSequence b.chunks with
    | nil => simp [hch] at hchunk
    | cons first rest =>
      have hfst := sequence_of_chunksFrom hch
      rw [hch] at hchunk hsrt
      rcases mem_cons.mp hchunk with rfl | hr
      · exact hfst
      · exact hfst.trans ((pairwise_cons.mp hsrt).1 chunk hr).le
  refine List.IsInfix.trans ?_ (bytesOf_drop_suffix pushed (hle.trans hlater)).isInfix
  rw [bytesOf_drop_eq hev]
  obtain ⟨before, after, hspl⟩ := append_of_mem (hsuf.subset hb)
  exact ⟨before, after ++ bytesOf (pushed.drop (chunk.sequence + 1)), by simp [hspl]⟩

end Gap

/-! ## The recent bytes of a run -/

namespace OutputRing

variable {r r' : OutputRing} {pushed : List SharedBytes}

theorem popWhile_recent (more : OutputRing → Bool) (fuel : ℕ) (r : OutputRing) :
    (popWhile more fuel r).recent = r.recent := by
  induction fuel generalizing r with
  | zero => rfl
  | succ fuel ih =>
    rw [popWhile]
    split_ifs
    · rw [ih]
      unfold popOldestEvent
      split <;> rfl
    · rfl

/-- The recent bytes of a ring are from its output. -/
structure Remembers (r : OutputRing) (pushed : List SharedBytes) : Prop where
  retains : r.Retains pushed
  recents : Recents pushed r.recent.chunks
  capacity_pos : 0 < r.recent.capacity

theorem remembers_new {eventCapacity recentByteCapacity : ℕ} (hevs : 0 < eventCapacity)
    (hbs : 0 < recentByteCapacity) : (new eventCapacity recentByteCapacity hevs hbs).Remembers [] :=
  ⟨retains_new hevs hbs, ⟨nofun, nofun, .nil⟩, hbs⟩

theorem capacity_push (b : RecentLiveBuffer) (sequence : ℕ) (bytes : SharedBytes) :
    (b.push sequence bytes).capacity = b.capacity := by
  rw [push]
  split_ifs <;> rfl

theorem recent_push (h : r.Retains pushed) {bytes : SharedBytes} {retainRecent : Bool}
    {sequence : ℕ} (hpu : r.pushSharedWithRecentRetention bytes retainRecent =
      some (sequence, r')) : sequence = pushed.length ∧
      r'.recent = if retainRecent then r.recent.push pushed.length bytes else r.recent := by
  rw [pushSharedWithRecentRetention] at hpu
  split_ifs at hpu with hrm
  cases hpu
  exact ⟨h.nextSequence_eq, by
    rw [rotate, popWhile_recent, popWhile_recent, append, h.nextSequence_eq]⟩

theorem Remembers.push (h : r.Remembers pushed) {bytes : SharedBytes} {retainRecent : Bool}
    {sequence : ℕ} (hpu : r.pushSharedWithRecentRetention bytes retainRecent =
      some (sequence, r')) : r'.Remembers (pushed ++ [bytes]) := by
  refine ⟨h.retains.push hpu, ?_, ?_⟩ <;> rw [(recent_push h.retains hpu).2]
  · split_ifs
    · exact h.recents.bufferPush h.capacity_pos bytes
    · exact h.recents.push bytes
  · split_ifs
    · rw [capacity_push]
      exact h.capacity_pos
    · exact h.capacity_pos

theorem Remembers.clearRetained (h : r.Remembers pushed) : r.clearRetained.Remembers pushed :=
  ⟨h.retains.clearRetained, ⟨nofun, nofun, .nil⟩, h.capacity_pos⟩

/-- A gap comes with the recent bytes of the ring. -/
theorem pollCursor_gap {cursor cursor' : OutputCursor} {gap : OutputGap}
    (h : r.pollCursor cursor = (some (.gap gap), cursor')) :
    gap.recentSnapshot = r.recent.contents := by
  unfold pollCursor at h
  dsimp only at h
  split_ifs at h with hlagged hcaught
  · cases h
    rfl
  · cases h
  · split at h <;> cases h

end OutputRing

/-! ## Runs -/

namespace WaitRun

variable {needle : List UInt8} {sequence : ℕ} {run run' : WaitRun} {bytes : SharedBytes}

/-- A wait goes on from bytes that end where the next item begins : no gap has brought bytes so far,
and one that comes now leaves nothing out between the bytes it brings. A needle of one byte needs no
such care. -/
def Seamless (needle : List UInt8) (run : WaitRun) : Prop :=
  needle.length = 1 ∨
    (∀ gap, .gap gap ∈ run.items → gap.brought = []) ∧
      ∀ gap cursor, run.ring.pollCursor run.cursor = (some (.gap gap), cursor) →
        Adjoining run.pushed gap.sequences

/-- A match is real, and the bytes kept are the last ones before the cursor, unless a gap has
brought some. -/
structure Honest (needle : List UInt8) (sequence : ℕ) (run : WaitRun) : Prop where
  remembers : run.ring.Remembers run.pushed
  le_cursor : sequence ≤ run.cursor.nextSequence
  found : run.matched = true → needle <:+: bytesOf (run.pushed.drop sequence)
  single : needle.length = 1 → run.tail = []
  tail : (∀ gap, .gap gap ∈ run.items → gap.brought = []) → run.tail = [] ∨
    run.cursor.nextSequence ≤ run.pushed.length ∧
      run.tail <:+ bytesOf ((run.pushed.take run.cursor.nextSequence).drop sequence)

theorem honest_new {ring : OutputRing} (hring : ring.Remembers []) (needle : List UInt8)
    (sequence : ℕ) : Honest needle sequence (new ring sequence) :=
  ⟨hring, le_rfl, nofun, fun _ => rfl, fun _ => .inl rfl⟩

/-- Output that comes later changes nothing of this. -/
theorem Honest.push (h : Honest needle sequence run) {ring : OutputRing}
    (hring : ring.Remembers (run.pushed ++ [bytes])) :
    Honest needle sequence { run with ring, pushed := run.pushed ++ [bytes] } where
  remembers := hring
  le_cursor := h.le_cursor
  found hm := (h.found hm).trans (bytesOf_grows _ _ _).isInfix
  single := h.single
  tail hgaps := by
    refine (h.tail hgaps).imp_right fun ⟨hle, hsuf⟩ => ⟨?_, ?_⟩
    · rw [length_append]
      exact hle.trans (le_add_right _ _)
    · rw [take_append_of_le_length hle]
      exact hsuf

/-- What is kept of a single-byte search. -/
theorem observeBytes_single (hndl : needle.length = 1) (bytes : List UInt8) :
    (observeBytes needle [] bytes).2 = [] := by
  rw [observeBytes, hndl]
  split_ifs
  · rfl
  · rfl

theorem bytesOf_take_succ (hij : i ≤ j) (h : pushed[j]? = some bytes) :
    bytesOf ((pushed.take (j + 1)).drop i) =
      bytesOf ((pushed.take j).drop i) ++ bytes.bytes := by
  obtain ⟨hj, rfl⟩ := List.getElem?_eq_some_iff.mp h
  rw [take_succ_eq_append_getElem hj, drop_append_of_le_length (by simp; omega)]
  simp [bytesOf]

variable (h : Honest needle sequence run)

include h

/-- The bytes kept are the last ones before the cursor. -/
theorem Honest.tail_suffix (hseam : Seamless needle run) :
    run.tail <:+ bytesOf ((run.pushed.take run.cursor.nextSequence).drop sequence) := by
  have hsuf (hnil : run.tail = []) {l : List UInt8} : run.tail <:+ l := hnil ▸ nil_suffix
  rcases hseam with hndl | ⟨hgaps, -⟩
  · exact hsuf (h.single hndl)
  · exact (h.tail hgaps).elim (hsuf ·) And.right

/-- The event at the cursor. -/
theorem Honest.event (hseam : Seamless needle run)
    (hev : run.pushed[run.cursor.nextSequence]? = some bytes) : Honest needle sequence
      { run with
        cursor := run.cursor.advanceTo (run.cursor.nextSequence + 1)
        tail := (observeBytes needle run.tail bytes.bytes).2
        matched := (observeBytes needle run.tail bytes.bytes).1
        items := run.items ++ [.event ⟨run.cursor.nextSequence, bytes⟩] } := by
  have hlt := (List.getElem?_eq_some_iff.mp hev).1
  have hcomb : run.tail ++ bytes.bytes <:+
      bytesOf ((run.pushed.take (run.cursor.nextSequence + 1)).drop sequence) := by
    rw [bytesOf_take_succ h.le_cursor hev]
    exact suffix_append_self_iff.mpr (h.tail_suffix hseam)
  refine ⟨h.remembers, h.le_cursor.trans (le_succ _), fun hm => ?_, fun hndl => ?_,
    fun _ => .inr ⟨hlt, ?_⟩⟩
  · have hne : bytes.bytes ≠ [] := by
      intro hnil
      simp [hnil, observeBytes_nil] at hm
    rw [observeBytes_eq _ _ hne] at hm
    rw [bytesOf_drop_split _ (h.le_cursor.trans (le_succ _))]
    exact (of_decide_eq_true hm).trans (hcomb.isInfix.trans (prefix_append _ _).isInfix)
  · rw [h.single hndl]
    exact observeBytes_single hndl bytes.bytes
  · show (observeBytes needle run.tail bytes.bytes).2 <:+ _
    by_cases hnil : bytes.bytes = []
    · rw [hnil, append_nil] at hcomb
      rw [hnil, observeBytes_nil]
      exact hcomb
    · rw [observeBytes_eq _ _ hnil]
      exact (lastBytes_suffix _ _).trans hcomb

/-- A gap at the cursor. -/
theorem Honest.gap (hseam : Seamless needle run) {gap : OutputGap} {cursor : OutputCursor}
    (hpl : run.ring.pollCursor run.cursor = (some (.gap gap), cursor))
    (hexp : gap.expectedSequence = run.cursor.nextSequence)
    (hlater : run.cursor.nextSequence ≤ cursor.nextSequence) : Honest needle sequence
      { run with
        cursor
        tail := (observeGap needle run.tail gap).2
        matched := (observeGap needle run.tail gap).1
        items := run.items ++ [.gap gap] } := by
  have hgap := OutputRing.pollCursor_gap hpl
  have hle : sequence ≤ gap.expectedSequence := hexp ▸ h.le_cursor
  have htail : run.tail <:+ bytesOf ((run.pushed.take gap.expectedSequence).drop sequence) :=
    hexp ▸ h.tail_suffix hseam
  refine ⟨h.remembers, h.le_cursor.trans hlater, fun hm => ?_, fun hndl => ?_, fun hgaps => .inl ?_⟩
  · by_cases hndl : needle.length = 1
    · rw [h.single hndl] at hm
      exact observeGap_byte hgap h.remembers.recents hle hndl hm
    · exact observeGap_sound hgap h.remembers.recents hle htail
        ((hseam.resolve_left hndl).2 gap cursor hpl) hm
  · show (observeGap needle run.tail gap).2 = []
    rw [observeGap_eq, h.single hndl, ite_self]
    exact observeBytes_single hndl gap.brought
  · -- a gap that brings nothing does not begin with the expected event
    have hbrought : gap.brought = [] := hgaps gap (by simp)
    have hnot : ¬ startsAtExpected gap := by
      intro hsts
      obtain ⟨chunk, rest, hch, -⟩ := chunk_of_startsAtExpected hgap hsts
      rw [brought_eq hgap, hch, flatMap_cons, append_eq_nil_iff] at hbrought
      have hrec := h.remembers.recents.chunksFrom gap.expectedSequence
      rw [hch] at hrec
      exact (hrec.chunk chunk mem_cons_self).slice_ne_nil hbrought.1
    show (observeGap needle run.tail gap).2 = []
    rw [observeGap_eq, hbrought, if_neg hnot, observeBytes_nil]

theorem Honest.poll (hseam : Seamless needle run) : Honest needle sequence (run.poll needle) := by
  rw [WaitRun.poll]
  rcases h.remembers.retains.pollCursor_cases run.cursor with
    ⟨-, hpl⟩ | ⟨bytes, hev, hpl⟩ | ⟨gap, hexp, hlt, -, -, hpl⟩
  · rw [hpl]
    exact h
  · rw [hpl]
    exact h.event hseam hev
  · rw [hpl]
    exact h.gap hseam hpl hexp (hexp ▸ hlt.le)

/-- One operation of a run. -/
theorem Honest.step {op : WaitOp} (hseam : op = .poll → run.matched = false → Seamless needle run)
    (hst : run.step needle op = some run') : Honest needle sequence run' := by
  cases op with
  | push bytes retainRecent =>
    obtain ⟨⟨number, ring⟩, hpu, rfl⟩ := map_eq_some_iff.mp hst
    exact h.push (h.remembers.push hpu)
  | clear =>
    cases hst
    exact ⟨h.remembers.clearRetained, h.le_cursor, h.found, h.single, h.tail⟩
  | poll =>
    cases hst
    split_ifs with hm
    · exact h
    · exact h.poll (hseam rfl (by simpa using hm))

omit h

/-! ## What was delivered -/

/-- The bytes of an item that is no gap. -/
def eventBytes : OutputCursorItem → List UInt8
  | .event event => event.bytes.bytes
  | .gap _ => []

def delivered (run : WaitRun) : List UInt8 := run.items.flatMap eventBytes

/-- Without a gap a wait has matched if what was delivered contains the needle, and otherwise keeps
the end of it. -/
def Complete (needle : List UInt8) (run : WaitRun) : Prop :=
  (∀ item ∈ run.items, item.isGap = false) →
    (run.matched = true ↔ needle <:+: run.delivered) ∧
      (run.matched = false → run.tail = lastBytes (needle.length - 1) run.delivered)

theorem complete_new (ring : OutputRing) (sequence : ℕ) (hndl : needle ≠ []) :
    Complete needle (new ring sequence) := by
  intro _
  refine ⟨⟨nofun, fun hin => absurd (eq_nil_of_infix_nil hin) hndl⟩, fun _ => ?_⟩
  simp [new, delivered, lastBytes]

theorem Complete.poll (h : Complete needle run) (hun : run.matched = false) :
    Complete needle (run.poll needle) := by
  rw [WaitRun.poll]
  rcases hpl : run.ring.pollCursor run.cursor with ⟨_ | item, cursor⟩
  · exact h
  intro hgaps
  have hbef := h fun item' hitem' => hgaps item' (mem_append_left _ hitem')
  cases item with
  | gap gap => exact absurd (hgaps (.gap gap) (by simp)) (by simp [OutputCursorItem.isGap])
  | event event =>
    have hnot : ¬ needle <:+: run.delivered := by
      rw [← hbef.1, hun]
      exact Bool.false_ne_true
    have hdelivered : (run.items ++ [OutputCursorItem.event event]).flatMap eventBytes =
        run.delivered ++ event.bytes.bytes := by simp [delivered, eventBytes]
    show ((observeBytes needle run.tail event.bytes.bytes).1 = true ↔
        needle <:+: (run.items ++ [OutputCursorItem.event event]).flatMap eventBytes) ∧
      ((observeBytes needle run.tail event.bytes.bytes).1 = false →
        (observeBytes needle run.tail event.bytes.bytes).2 = lastBytes (needle.length - 1)
          ((run.items ++ [OutputCursorItem.event event]).flatMap eventBytes))
    rw [hdelivered]
    by_cases hnil : event.bytes.bytes = []
    · rw [hnil, observeBytes_nil, append_nil]
      exact ⟨iff_of_false Bool.false_ne_true hnot, fun _ => hbef.2 hun⟩
    · rw [observeBytes_eq _ _ hnil, hbef.2 hun, lastBytes_append, infix_append_iff hnot]
      exact ⟨decide_eq_true_iff, fun _ => rfl⟩

theorem Complete.step (h : Complete needle run) {op : WaitOp}
    (hst : run.step needle op = some run') : Complete needle run' := by
  cases op with
  | push bytes retainRecent =>
    obtain ⟨⟨number, ring⟩, -, rfl⟩ := map_eq_some_iff.mp hst
    exact h
  | clear =>
    cases hst
    exact h
  | poll =>
    cases hst
    split_ifs with hm
    · exact h
    · exact h.poll (by simpa using hm)

/-! ## Whole runs -/

/-- The run after some operations; none where the source panics on the way. -/
def after (needle : List UInt8) (run : WaitRun) (ops : List WaitOp) : Option WaitRun :=
  ops.foldlM (step needle) run

theorem after_concat (needle : List UInt8) (run : WaitRun) (ops : List WaitOp) (op : WaitOp) :
    run.after needle (ops ++ [op]) =
      (run.after needle ops).bind fun before => before.step needle op := by
  simp [after, foldlM_append]

/-- All polls of a run up to a match are seamless. -/
def SeamlessRun (needle : List UInt8) (run : WaitRun) (ops : List WaitOp) : Prop :=
  ∀ ops' before, ops' ++ [.poll] <+: ops → run.after needle ops' = some before →
    before.matched = false → Seamless needle before

theorem Honest.after (h : Honest needle sequence run) {ops : List WaitOp}
    (hseam : SeamlessRun needle run ops) (haft : run.after needle ops = some run') :
    Honest needle sequence run' := by
  induction ops using reverseRecOn generalizing run' with
  | nil =>
    cases haft
    exact h
  | append_singleton ops op ih =>
    rw [after_concat] at haft
    obtain ⟨before, hbef, hst⟩ := bind_eq_some_iff.mp haft
    have hfst : SeamlessRun needle run ops := fun ops' before' hops' =>
      hseam ops' before' (hops'.trans (prefix_append _ _))
    refine (ih hfst hbef).step (fun hop hun => ?_) hst
    exact hseam ops before (by rw [hop]) hbef hun

theorem Complete.after (h : Complete needle run) {ops : List WaitOp}
    (haft : run.after needle ops = some run') : Complete needle run' := by
  induction ops using reverseRecOn generalizing run' with
  | nil =>
    cases haft
    exact h
  | append_singleton ops op ih =>
    rw [after_concat] at haft
    obtain ⟨before, hbef, hst⟩ := bind_eq_some_iff.mp haft
    exact (ih hbef).step hst

/-- A wait whose polls are all seamless matches only what was written from its sequence on; and a
wait that meets no gap matches exactly when what was delivered contains the needle. -/
theorem byte_wait_is_sound {eventCapacity recentByteCapacity : ℕ} (hevents : 0 < eventCapacity)
    (hbytes : 0 < recentByteCapacity) {needle : List UInt8} (hneedle : needle ≠ []) (sequence : ℕ)
    {ops : List WaitOp} {run : WaitRun}
    (hafter : (new (.new eventCapacity recentByteCapacity hevents hbytes) sequence).after needle
      ops = some run) :
    (SeamlessRun needle (new (.new eventCapacity recentByteCapacity hevents hbytes) sequence) ops →
        run.matched = true → needle <:+: bytesOf (run.pushed.drop sequence)) ∧
      ((∀ item ∈ run.items, item.isGap = false) →
        (run.matched = true ↔ needle <:+: run.delivered)) := by
  constructor
  · intro hseam
    exact ((honest_new (OutputRing.remembers_new hevents hbytes) needle sequence).after hseam
      hafter).found
  · intro hgaps
    exact ((complete_new _ sequence hneedle).after hafter hgaps).1

/-- A ring that retains one event brings both of its events in a gap, and a wait finds `bc` across
them. -/
theorem match_across_a_gap :
    ∃ run, (new (.new 1 16 (by decide) (by decide)) 0).after [98, 99]
        [.push ⟨[97, 98], by decide⟩ true, .push ⟨[99], by decide⟩ true, .poll] = some run ∧
      run.matched = true ∧ [98, 99] <:+: bytesOf (run.pushed.drop 0) := by
  have hrun : (new (.new 1 16 (by decide) (by decide)) 0).after [98, 99]
      [.push ⟨[97, 98], by decide⟩ true, .push ⟨[99], by decide⟩ true, .poll] = some _ := rfl
  refine ⟨_, hrun, by decide, ?_⟩
  refine (byte_wait_is_sound (by decide) (by decide) (by decide) 0 hrun).1 ?_ (by decide)
  intro ops' before hops hbefore _
  rcases ops' with _ | ⟨first, _ | ⟨second, _ | ⟨third, rest⟩⟩⟩
  · simp [cons_prefix_cons] at hops
  · simp [cons_prefix_cons] at hops
  · simp only [cons_append, nil_append, cons_prefix_cons] at hops
    obtain ⟨rfl, rfl, -⟩ := hops
    cases hbefore
    refine .inr ⟨fun _ hgap => absurd hgap not_mem_nil, fun gap cursor hpoll => ?_⟩
    cases hpoll
    show Adjoining _ [0, 1]
    refine isChain_cons_cons.mpr ⟨fun i bytes hi hi' => ?_, .singleton _⟩
    omega
  · simp [cons_prefix_cons] at hops

/-- A ring that retains two events has received `x`, `b` and `a`. A wait from the first of them
meets a gap that brings all three, and then `b` and `a` once more : it finds `ab` in `xbaba`. A ring
that has not kept `x` among its recent bytes brings `a` and `b` as if nothing were between them. -/
theorem byte_wait_matches_joined_output :
    (∃ run, (new (.new 2 16 (by decide) (by decide)) 0).after [97, 98]
        [.push ⟨[120], by decide⟩ true, .push ⟨[98], by decide⟩ true, .push ⟨[97], by decide⟩ true,
          .poll, .poll] = some run ∧
      run.matched = true ∧ ¬ [97, 98] <:+: bytesOf (run.pushed.drop 0)) ∧
    ∃ run, (new (.new 1 16 (by decide) (by decide)) 0).after [97, 98]
        [.push ⟨[97], by decide⟩ true, .push ⟨[120], by decide⟩ false,
          .push ⟨[98], by decide⟩ true, .poll] = some run ∧
      run.matched = true ∧ ¬ [97, 98] <:+: bytesOf (run.pushed.drop 0) := by
  refine ⟨⟨_, rfl, ?_⟩, ⟨_, rfl, ?_⟩⟩ <;> decide

end WaitRun

end Rmux
