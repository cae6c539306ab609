import Mathlib.Data.List.Induction
import Rmux.ConsoleInput
import Rmux.ListLemmas
import Rmux.WordDeletion

/-!
# Pasted text in its envelope

What a client sends is live input and envelopes (`Contained`). The text of one batch is stripped
until no marker is left, and the end of it that could begin a marker is held back. That is not
enough when the bytes that were sent before it also end with the beginning of a marker : a marker
that the next batch completes is removed, and what follows it then completes the one before. The
texts of an envelope are sent in the sense of `Sends`, so its body is free of markers exactly if no
marker lies across these texts (`Seamless`, `paste_is_contained`).
-/

namespace Rmux

open WordDeletion List

variable {text : List UInt8}

/-! ## Removing markers -/

def pasteMarkers : List (List UInt8) := [bracketedPasteStart, bracketedPasteEnd]

theorem marked_pasteMarkers : Marked pasteMarkers 0x1b := by
  refine ⟨fun word hw => ⟨word.tail, ?_⟩, ?_⟩
  · simp only [pasteMarkers, mem_cons, not_mem_nil, or_false] at hw
    rcases hw with rfl | rfl <;> decide
  · decide

theorem removeSubslicesFrom_reduces {needle : List UInt8} {words : List (List UInt8)}
    (h : needle ∈ words) (n : ℕ) (buf : List UInt8) :
    Reduces words buf (removeSubslicesFrom needle n buf) := by
  induction n generalizing buf with
  | zero => exact .refl
  | succ n ih =>
    cases buf with
    | nil => exact .refl
    | cons byte r =>
      rw [removeSubslicesFrom]
      split_ifs with hhere
      · obtain ⟨after, haft⟩ := hhere
        refine .head ⟨[], needle, after, h, by simpa using haft.symm, rfl⟩ ?_
        rw [← haft, drop_left]
        exact ih after
      · exact (ih r).append_left [byte]

theorem length_removeSubslicesFrom_le (needle : List UInt8) (n : ℕ) (buf : List UInt8) :
    (removeSubslicesFrom needle n buf).length ≤ buf.length := by
  induction n generalizing buf with
  | zero => exact le_rfl
  | succ n ih =>
    cases buf with
    | nil => exact le_rfl
    | cons byte r =>
      rw [removeSubslicesFrom]
      split_ifs with hhere
      · exact (ih _).trans (by rw [length_drop]; omega)
      · simpa using ih r

/-- If nothing became shorter, the needle is not there. -/
theorem not_infix_of_removeSubslicesFrom {needle : List UInt8} (hndl : needle ≠ []) {n : ℕ}
    {buf : List UInt8} (hfu : buf.length ≤ n)
    (h : (removeSubslicesFrom needle n buf).length = buf.length) :
    ¬ needle <:+: buf ∧ removeSubslicesFrom needle n buf = buf := by
  have hpos := length_pos_iff.mpr hndl
  induction n generalizing buf with
  | zero =>
    obtain rfl := length_eq_zero_iff.mp (Nat.le_zero.mp hfu)
    exact ⟨fun hin => hndl (eq_nil_of_infix_nil hin), rfl⟩
  | succ n ih =>
    cases buf with
    | nil => exact ⟨fun hin => hndl (eq_nil_of_infix_nil hin), rfl⟩
    | cons byte r =>
      rw [removeSubslicesFrom] at h ⊢
      split_ifs at h ⊢ with hhere
      · have hle := length_removeSubslicesFrom_le needle n ((byte :: r).drop needle.length)
        rw [h, length_drop] at hle
        have := hhere.length_le
        omega
      · obtain ⟨hnot, heq⟩ := ih (by simpa using hfu) (by simpa using h)
        refine ⟨fun hin => ?_, by rw [heq]⟩
        rcases infix_cons_iff.mp hin with hst | hr
        · exact hhere hst
        · exact hnot hr

section RemoveAll

variable {needle : List UInt8} {words : List (List UInt8)} {buf : List UInt8}

theorem removeAllSubslices_reduces (h : needle ∈ words) :
    Reduces words buf (removeAllSubslices needle buf) := by
  rw [removeAllSubslices]
  split_ifs
  · exact .refl
  · exact removeSubslicesFrom_reduces h _ _

theorem length_removeAllSubslices_le (needle buf : List UInt8) :
    (removeAllSubslices needle buf).length ≤ buf.length := by
  rw [removeAllSubslices]
  split_ifs
  · exact le_rfl
  · exact length_removeSubslicesFrom_le _ _ _

theorem not_infix_of_removeAllSubslices (hndl : needle ≠ [])
    (h : (removeAllSubslices needle buf).length = buf.length) :
    ¬ needle <:+: buf ∧ removeAllSubslices needle buf = buf := by
  rw [removeAllSubslices] at h ⊢
  split_ifs at h ⊢ with hsh
  · refine ⟨fun hin => ?_, rfl⟩
    have hlen := hin.length_le
    simp [hndl] at hsh
    omega
  · exact not_infix_of_removeSubslicesFrom hndl le_rfl h

end RemoveAll

theorem stripRounds_remains {fuel : ℕ} (hfu : text.length < fuel) :
    Remains pasteMarkers text (stripRounds fuel text) := by
  induction fuel generalizing text with
  | zero => omega
  | succ fuel ih =>
    rw [stripRounds]
    have hend := length_removeAllSubslices_le bracketedPasteEnd text
    have hst := length_removeAllSubslices_le bracketedPasteStart
      (removeAllSubslices bracketedPasteEnd text)
    have hred : Reduces pasteMarkers text (removeAllSubslices bracketedPasteStart
        (removeAllSubslices bracketedPasteEnd text)) :=
      (removeAllSubslices_reduces (by decide)).trans (removeAllSubslices_reduces (by decide))
    split_ifs with hsm
    · refine ⟨hred, ?_⟩
      have hsameEnd : (removeAllSubslices bracketedPasteEnd text).length = text.length := by omega
      obtain ⟨hnoEnd, heqEnd⟩ := not_infix_of_removeAllSubslices (by decide) hsameEnd
      rw [heqEnd] at hsm ⊢
      obtain ⟨hnoStart, heqStart⟩ := not_infix_of_removeAllSubslices (by decide) hsm
      rw [heqStart]
      intro word hw
      simp only [pasteMarkers, mem_cons, not_mem_nil, or_false] at hw
      rcases hw with rfl | rfl
      · exact hnoStart
      · exact hnoEnd
    · have hshorter : (removeAllSubslices bracketedPasteStart
          (removeAllSubslices bracketedPasteEnd text)).length < fuel := by omega
      obtain ⟨hr, hfree⟩ := ih hshorter
      exact ⟨hred.trans hr, hfree⟩

theorem free_of_length_lt (h : text.length < 6) : Free pasteMarkers text := by
  refine Free.of_length fun word hw => ?_
  simp only [pasteMarkers, mem_cons, not_mem_nil, or_false] at hw
  rcases hw with rfl | rfl <;> exact h

/-- What is stripped is what remains when markers are removed until none is left. -/
theorem strip_remains (text : List UInt8) :
    Remains pasteMarkers text (stripEmbeddedPasteMarkers text) := by
  rw [stripEmbeddedPasteMarkers]
  split_ifs with hsh
  · exact ⟨.refl, free_of_length_lt hsh⟩
  · exact stripRounds_remains (Nat.lt_succ_self _)

theorem starts_marker_iff : Starts pasteMarkers text ↔
    text.length < 6 ∧ (text <+: bracketedPasteStart ∨ text <+: bracketedPasteEnd) := by
  constructor
  · rintro ⟨word, hw, htext, hne⟩
    have hlt := lt_of_le_of_ne htext.length_le fun heq => hne (htext.eq_of_length heq)
    simp only [pasteMarkers, mem_cons, not_mem_nil, or_false] at hw
    rcases hw with rfl | rfl
    · exact ⟨hlt, .inl htext⟩
    · exact ⟨hlt, .inr htext⟩
  · have hne {word : List UInt8} (hw : word.length = 6) (hlt : text.length < 6) : text ≠ word := by
      rintro rfl
      omega
    rintro ⟨hlt, hstart | hend⟩
    · exact ⟨bracketedPasteStart, by decide, hstart, hne rfl hlt⟩
    · exact ⟨bracketedPasteEnd, by decide, hend, hne rfl hlt⟩

/-- How much of a text is sent before the input is drained. -/
def splitAt (text : List UInt8) : ℕ := text.length - markerStraddleHoldLen text

/-- Ends are tried from the longest on. -/
theorem longestBeginning_splitAt (text : List UInt8) :
    LongestBeginning pasteMarkers text (text.drop (splitAt text)) := by
  rw [splitAt, markerStraddleHoldLen]
  set lengths := (range' 1 (bracketedPasteStart.length - 1)).reverse.filter
    (decide <| · ≤ text.length) with hlengths
  have hmem (k : ℕ) : k ∈ lengths ↔ (1 ≤ k ∧ k < 6) ∧ k ≤ text.length := by
    simp [hlengths, bracketedPasteStart]
  have hsorted : lengths.Pairwise (· > ·) :=
    (show (range' 1 5).reverse.Pairwise (· > ·) by decide).filter _
  -- an end that begins a marker is one of those that are tried
  have htried {other : List UInt8} (hother : other <:+ text) (hstarts : Starts pasteMarkers other)
      (hne : other ≠ []) : other.length ∈ lengths ∧
        (text.drop (text.length - other.length) <+: bracketedPasteStart ∨
          text.drop (text.length - other.length) <+: bracketedPasteEnd) := by
    rw [← suffix_iff_eq_drop.mp hother]
    obtain ⟨hlt, hmarker⟩ := starts_marker_iff.mp hstarts
    exact ⟨(hmem _).mpr ⟨⟨length_pos_iff.mpr hne, hlt⟩, hother.length_le⟩, hmarker⟩
  cases hfind : lengths.find? _ with
  | none =>
    rw [Option.getD_none, Nat.sub_zero, drop_length]
    refine ⟨nil_suffix, starts_marker_iff.mpr ⟨by decide, .inl nil_prefix⟩,
      fun other hother hstarts => ?_⟩
    by_contra hpos
    obtain ⟨hin, hmarker⟩ := htried hother hstarts (by rintro rfl; exact hpos le_rfl)
    simpa [hmarker] using find?_eq_none.mp hfind _ hin
  | some k =>
    obtain ⟨hmarker, longer, shorter, heq, hlonger⟩ := find?_eq_some_iff_append.mp hfind
    have hk := (hmem k).mp (heq ▸ mem_append_right _ mem_cons_self)
    have hlength : (text.drop (text.length - k)).length = k := by
      rw [length_drop]
      omega
    rw [Option.getD_some]
    refine ⟨drop_suffix _ _, starts_marker_iff.mpr ⟨by omega, by simpa using hmarker⟩,
      fun other hother hstarts => ?_⟩
    rw [hlength]
    rcases eq_or_ne other [] with rfl | hne
    · exact Nat.zero_le k
    obtain ⟨hin, hother'⟩ := htried hother hstarts hne
    rw [heq] at hin hsorted
    rcases mem_append.mp hin with hlong | hshort
    · obtain ⟨hstart, hend⟩ : ¬ _ ∧ ¬ _ := by simpa using hlonger _ hlong
      exact (hother'.elim hstart hend).elim
    · rcases mem_cons.mp hshort with hsame | hless
      · exact hsame.le
      · exact (rel_of_pairwise_cons (pairwise_append.mp hsorted).2.1 hless).le

/-! ## Runs -/

/-- The payloads of an envelope, and the texts that were pasted into it, one for each batch. -/
structure Envelope where
  payloads : List (List UInt8)
  texts : List (List UInt8)
deriving DecidableEq

namespace Envelope

/-- The body so far. -/
def openBody (envelope : Envelope) : List UInt8 :=
  envelope.payloads.flatten.drop bracketedPasteStart.length

/-- The body of an envelope that is closed. -/
def closedBody (envelope : Envelope) : List UInt8 :=
  envelope.openBody.take (envelope.openBody.length - bracketedPasteEnd.length)

end Envelope

/-- A part of what was sent. -/
inductive Segment
  | live (input : AttachInput)
  | envelope (envelope : Envelope)
deriving DecidableEq

/-- The inputs that a part is sent as. -/
def Segment.inputs : Segment → List AttachInput
  | .live input => [input]
  | .envelope sent => sent.payloads.map AttachInput.ofBytes

/-- A client with all it has sent, read as live input and envelopes. -/
structure PasteRun where
  state : PasteState
  inputs : List AttachInput
  segments : List Segment
  current : Option Envelope

namespace PasteRun

/-- Nothing was sent. -/
def initial : PasteRun := ⟨.initial, [], [], none⟩

/-- The envelope that a paste goes into. -/
def target (run : PasteRun) : Envelope := run.current.getD ⟨[], []⟩

/-- The body of the open envelope so far. -/
def sentBody (run : PasteRun) : List UInt8 := run.target.openBody

/-- Encode a batch. A paste goes into the open envelope, and closes it when the input is drained.
Any other batch closes it with its first payload, and the rest is live. -/
def step (run : PasteRun) (batch : InputBatch) : PasteRun :=
  let inputs := (encodeInputBatchWithHint batch run.state).1
  let state := (encodeInputBatchWithHint batch run.state).2
  let all := run.inputs ++ inputs
  if run.state.pasteOpen && !batch.drained && batch.continuationNoiseOnly then
    { run with state, inputs := all }
  else if batch.isPaste run.state.pasteOpen then
    let envelope : Envelope := ⟨run.target.payloads ++ inputs.map AttachInput.bytes,
      run.target.texts ++ [(batch.encodePasteBody run.state.pendingHighSurrogate).1]⟩
    if batch.drained then ⟨state, all, run.segments ++ [.envelope envelope], none⟩
    else ⟨state, all, run.segments, some envelope⟩
  else
    match run.current with
    | none => ⟨state, all, run.segments ++ inputs.map .live, none⟩
    | some before =>
      let envelope : Envelope :=
        ⟨before.payloads ++ (inputs.take 1).map AttachInput.bytes, before.texts⟩
      ⟨state, all, run.segments ++ .envelope envelope :: (inputs.drop 1).map .live, none⟩

/-- A client after some batches. -/
def after (batches : List InputBatch) : PasteRun := batches.foldl step initial

/-- The envelopes that were sent or are being sent. -/
def envelopes (run : PasteRun) : List Envelope :=
  (run.segments.filterMap fun
    | .live _ => none
    | .envelope envelope => some envelope) ++ run.current.toList

/-- What was sent is live input and envelopes, and every body is what remains of its text when
markers are removed until none is left. -/
structure Contained (run : PasteRun) : Prop where
  inputs : run.inputs =
    run.segments.flatMap Segment.inputs ++ run.target.payloads.map AttachInput.ofBytes
  closed : ∀ envelope, .envelope envelope ∈ run.segments → ∃ body,
    envelope.payloads.flatten = bracketedPasteStart ++ body ++ bracketedPasteEnd ∧
      ∀ rest, Remains pasteMarkers envelope.texts.flatten rest ↔ rest = body
  current : ∀ envelope, run.current = some envelope → ∃ body,
    envelope.payloads.flatten = bracketedPasteStart ++ body ∧ Free pasteMarkers body ∧
      ∀ rest, Remains pasteMarkers envelope.texts.flatten rest ↔
        rest = body ++ run.state.pasteCarryover
  open_iff : run.state.pasteOpen = true ↔ run.current.isSome = true
  carryover : run.state.pasteCarryover ≠ [] → run.state.pasteOpen = true

end PasteRun

/-! ## One batch -/

theorem encodeLiveInputBatch_keeps (events : List BatchEvent) (state : PasteState) :
    (encodeLiveInputBatch events state).2.pasteOpen = state.pasteOpen ∧
      (encodeLiveInputBatch events state).2.pasteCarryover = state.pasteCarryover := by
  induction events generalizing state with
  | nil => exact ⟨rfl, rfl⟩
  | cons event events ih =>
    cases event with
    | key key =>
      rw [encodeLiveInputBatch]
      dsimp only
      split_ifs <;> exact ih _
    | mouse mouse =>
      rw [encodeLiveInputBatch]
      exact ih _

section Encode

variable {batch : InputBatch} {state : PasteState}

/-- The text of a paste with what was held back before it. -/
def strippedText (batch : InputBatch) (state : PasteState) : List UInt8 :=
  stripEmbeddedPasteMarkers
    (state.pasteCarryover ++ (batch.encodePasteBody state.pendingHighSurrogate).1)

theorem exists_payloads (payload : List UInt8) : ∃ payloads : List (List UInt8),
      (if payload.isEmpty then [] else [AttachInput.ofBytes payload]) =
        payloads.map AttachInput.ofBytes ∧ payloads.flatten = payload := by
  split_ifs with hemp
  · exact ⟨[], rfl, (isEmpty_iff.mp hemp).symm⟩
  · exact ⟨[payload], rfl, by simp⟩

theorem encode_paste
    (hnoi : (state.pasteOpen && !batch.drained && batch.continuationNoiseOnly) = false)
    (hpaste : batch.isPaste state.pasteOpen = true) : ∃ payloads : List (List UInt8),
      (encodeInputBatchWithHint batch state).1 = payloads.map AttachInput.ofBytes ∧
      payloads.flatten = (if state.pasteOpen then [] else bracketedPasteStart) ++
        (if batch.drained then strippedText batch state ++ bracketedPasteEnd
          else (strippedText batch state).take (splitAt (strippedText batch state))) ∧
      (encodeInputBatchWithHint batch state).2.pasteOpen = !batch.drained ∧
      (encodeInputBatchWithHint batch state).2.pasteCarryover =
        if batch.drained then []
        else (strippedText batch state).drop (splitAt (strippedText batch state)) := by
  rw [encodeInputBatchWithHint, if_neg (by simp [hnoi]), if_pos hpaste]
  dsimp only
  rw [← strippedText]
  cases batch.drained with
  | true =>
    obtain ⟨payloads, hpays, hfl⟩ := exists_payloads
      ((if state.pasteOpen then [] else bracketedPasteStart) ++ strippedText batch state ++
        bracketedPasteEnd)
    exact ⟨payloads, hpays, by rw [hfl, append_assoc]; rfl, rfl, rfl⟩
  | false =>
    obtain ⟨payloads, hpays, hfl⟩ := exists_payloads
      ((if state.pasteOpen then [] else bracketedPasteStart) ++
        (strippedText batch state).take (splitAt (strippedText batch state)))
    exact ⟨payloads, hpays, hfl, rfl, rfl⟩

theorem encode_other
    (hnoi : (state.pasteOpen && !batch.drained && batch.continuationNoiseOnly) = false)
    (hpaste : batch.isPaste state.pasteOpen = false) :
    (encodeInputBatchWithHint batch state).2.pasteOpen = false ∧
      (encodeInputBatchWithHint batch state).2.pasteCarryover =
        (if state.pasteOpen then [] else state.pasteCarryover) ∧
      (state.pasteOpen = true → ∃ live, (encodeInputBatchWithHint batch state).1 =
        .ofBytes (stripEmbeddedPasteMarkers state.pasteCarryover ++ bracketedPasteEnd) ::
          live) := by
  rw [encodeInputBatchWithHint, if_neg (by simp [hnoi]), if_neg (by simp [hpaste])]
  cases ho : state.pasteOpen with
  | true =>
    obtain ⟨hkeepOpen, hkeep⟩ := encodeLiveInputBatch_keeps batch.events
      { state with pasteOpen := false, pasteCarryover := [] }
    exact ⟨hkeepOpen, hkeep, fun _ => ⟨_, rfl⟩⟩
  | false =>
    obtain ⟨hkeepOpen, hkeep⟩ := encodeLiveInputBatch_keeps batch.events state
    exact ⟨hkeepOpen.trans ho, hkeep, nofun⟩

end Encode

namespace PasteRun

variable {run : PasteRun} {batch : InputBatch} {body : List UInt8}

/-! ## Frames -/

/-- Payloads are in frames, and the texts of an envelope are sent as they come. What was held back
is sent when it is closed. -/
structure Framed (run : PasteRun) : Prop where
  inputs : run.inputs =
    run.segments.flatMap Segment.inputs ++ run.target.payloads.map AttachInput.ofBytes
  closed : ∀ envelope, .envelope envelope ∈ run.segments →
    envelope.payloads.flatten =
        bracketedPasteStart ++ envelope.closedBody ++ bracketedPasteEnd ∧
      ∃ sent held, Sends pasteMarkers envelope.texts sent held ∧
        envelope.closedBody = sent ++ held
  current : ∀ envelope, run.current = some envelope →
    envelope.payloads.flatten = bracketedPasteStart ++ envelope.openBody ∧
      Sends pasteMarkers envelope.texts envelope.openBody run.state.pasteCarryover
  open_eq : run.state.pasteOpen = run.current.isSome
  carryover : run.current = none → run.state.pasteCarryover = []

theorem openBody_eq {envelope : Envelope}
    (h : envelope.payloads.flatten = bracketedPasteStart ++ body) : envelope.openBody = body := by
  rw [Envelope.openBody, h, drop_left]

theorem closedBody_eq {envelope : Envelope}
    (h : envelope.payloads.flatten = bracketedPasteStart ++ body ++ bracketedPasteEnd) :
    envelope.closedBody = body := by
  rw [append_assoc] at h
  rw [Envelope.closedBody, openBody_eq h, length_append, Nat.add_sub_cancel, take_left]

/-- The envelope that a paste goes into, with the marker that opens it. -/
theorem Framed.target_flatten (h : Framed run) :
    run.target.payloads.flatten ++ (if run.state.pasteOpen then [] else bracketedPasteStart) =
      bracketedPasteStart ++ run.sentBody := by
  rw [h.open_eq, sentBody, target]
  cases hcur : run.current with
  | none => rfl
  | some envelope => simpa using (h.current envelope hcur).1

theorem Framed.target_sends (h : Framed run) :
    Sends pasteMarkers run.target.texts run.sentBody run.state.pasteCarryover := by
  rw [sentBody, target]
  cases hcur : run.current with
  | none =>
    rw [h.carryover hcur]
    exact .nil
  | some envelope => exact (h.current envelope hcur).2

/-- The texts of an envelope with the text of a batch. -/
theorem Framed.texts_sends (h : Framed run) (batch : InputBatch) : Sends pasteMarkers
      (run.target.texts ++ [(batch.encodePasteBody run.state.pendingHighSurrogate).1])
      (run.sentBody ++ (strippedText batch run.state).take (splitAt (strippedText batch run.state)))
      ((strippedText batch run.state).drop (splitAt (strippedText batch run.state))) := by
  refine h.target_sends.snoc ?_ ?_
  · rw [take_append_drop]
    exact strip_remains _
  · rw [take_append_drop]
    exact longestBeginning_splitAt _

/-- No envelope is open after segments that take up what was sent. -/
theorem Framed.closing (h : Framed run) {state : PasteState} {inputs : List AttachInput}
    {new : List Segment} (hinputs : run.target.payloads.map AttachInput.ofBytes ++ inputs =
      new.flatMap Segment.inputs) (hnew : ∀ envelope, .envelope envelope ∈ new → ∃ body,
      envelope.payloads.flatten = bracketedPasteStart ++ body ++ bracketedPasteEnd ∧
        ∃ sent held, Sends pasteMarkers envelope.texts sent held ∧ body = sent ++ held)
    (ho : state.pasteOpen = false) (hcar : state.pasteCarryover = []) :
    Framed ⟨state, run.inputs ++ inputs, run.segments ++ new, none⟩ := by
  refine ⟨?_, fun envelope henv => ?_, nofun, ho, fun _ => hcar⟩
  · show run.inputs ++ inputs = (run.segments ++ new).flatMap Segment.inputs ++ []
    rw [h.inputs, append_assoc, hinputs, flatMap_append, append_nil]
  · rcases mem_append.mp henv with hold | hmem
    · exact h.closed envelope hold
    · obtain ⟨body, hfl, hsends⟩ := hnew envelope hmem
      rw [closedBody_eq hfl]
      exact ⟨hfl, hsends⟩

/-! ## A paste -/

/-- The envelope with the payloads and the text of a batch. -/
def pasted (run : PasteRun) (batch : InputBatch) : Envelope :=
  ⟨run.target.payloads ++ (encodeInputBatchWithHint batch run.state).1.map AttachInput.bytes,
    run.target.texts ++ [(batch.encodePasteBody run.state.pendingHighSurrogate).1]⟩

/-- A batch that is not passed over. -/
def Counts (run : PasteRun) (batch : InputBatch) : Prop :=
  (run.state.pasteOpen && !batch.drained && batch.continuationNoiseOnly) = false

theorem step_noise (h : ¬ run.Counts batch) : run.step batch = run := by
  have hnoi : (run.state.pasteOpen && !batch.drained && batch.continuationNoiseOnly) = true :=
    Bool.eq_true_of_not_eq_false h
  have hencode : encodeInputBatchWithHint batch run.state = ([], run.state) := if_pos hnoi
  rw [step, hencode]
  rw [if_pos hnoi, append_nil]

theorem map_bytes_map_ofBytes (payloads : List (List UInt8)) :
    (payloads.map AttachInput.ofBytes).map AttachInput.bytes = payloads := by
  rw [map_map]
  exact map_id payloads

section Paste

variable (h : Framed run) (hcounts : run.Counts batch)
  (hpaste : batch.isPaste run.state.pasteOpen = true)

include hcounts hpaste

theorem step_drained (hdr : batch.drained = true) :
    run.step batch = ⟨(encodeInputBatchWithHint batch run.state).2,
      run.inputs ++ (encodeInputBatchWithHint batch run.state).1,
      run.segments ++ [.envelope (run.pasted batch)], none⟩ := by
  rw [step]
  rw [if_neg (by rw [hcounts]; decide), if_pos hpaste]
  exact if_pos hdr

theorem step_undrained (hdr : batch.drained = false) :
    run.step batch = ⟨(encodeInputBatchWithHint batch run.state).2,
      run.inputs ++ (encodeInputBatchWithHint batch run.state).1, run.segments,
      some (run.pasted batch)⟩ := by
  rw [step]
  rw [if_neg (by rw [hcounts]; decide), if_pos hpaste]
  exact if_neg (by rw [hdr]; decide)

theorem pasted_inputs : (run.pasted batch).payloads.map AttachInput.ofBytes =
      run.target.payloads.map AttachInput.ofBytes ++
        (encodeInputBatchWithHint batch run.state).1 := by
  obtain ⟨payloads, hpays, -⟩ := encode_paste hcounts hpaste
  rw [pasted, hpays, map_bytes_map_ofBytes, map_append]

include h

theorem pasted_flatten :
    (run.pasted batch).payloads.flatten = bracketedPasteStart ++ (run.sentBody ++
      (if batch.drained then strippedText batch run.state ++ bracketedPasteEnd
        else (strippedText batch run.state).take (splitAt (strippedText batch run.state)))) := by
  obtain ⟨payloads, hpays, hfl, -⟩ := encode_paste hcounts hpaste
  rw [pasted, hpays, map_bytes_map_ofBytes, flatten_append, hfl,
    ← append_assoc, h.target_flatten, append_assoc]

theorem Framed.drained (hdr : batch.drained = true) : Framed (run.step batch) := by
  obtain ⟨-, -, -, ho, hcar⟩ := encode_paste hcounts hpaste
  rw [if_pos hdr] at hcar
  rw [hdr] at ho
  rw [step_drained hcounts hpaste hdr]
  refine h.closing ?_ (fun envelope henv => ?_) ho hcar
  · rw [flatMap_singleton, Segment.inputs, pasted_inputs hcounts hpaste]
  · cases mem_singleton.mp henv
    have hclosed := pasted_flatten h hcounts hpaste
    rw [if_pos hdr, ← append_assoc run.sentBody, ← append_assoc] at hclosed
    exact ⟨_, hclosed, _, _, h.texts_sends batch, by simp⟩

theorem Framed.undrained (hdr : batch.drained = false) : Framed (run.step batch) := by
  obtain ⟨-, -, -, ho, hcar⟩ := encode_paste hcounts hpaste
  rw [if_neg (by rw [hdr]; decide)] at hcar
  rw [step_undrained hcounts hpaste hdr]
  refine ⟨?_, h.closed, fun envelope henv => ?_, ?_, nofun⟩
  · show run.inputs ++ _ =
      run.segments.flatMap Segment.inputs ++ (run.pasted batch).payloads.map AttachInput.ofBytes
    rw [h.inputs, pasted_inputs hcounts hpaste, append_assoc]
  · cases henv
    have hopened := pasted_flatten h hcounts hpaste
    rw [if_neg (by rw [hdr]; decide)] at hopened
    rw [openBody_eq hopened]
    refine ⟨hopened, ?_⟩
    show Sends _ _ _ (encodeInputBatchWithHint batch run.state).2.pasteCarryover
    rw [hcar]
    exact h.texts_sends batch
  · exact ho.trans (by rw [hdr]; rfl)

end Paste

/-! ## Other batches -/

section Other

variable (h : Framed run) (hcounts : run.Counts batch)
  (hpaste : batch.isPaste run.state.pasteOpen = false) {before : Envelope}

include hcounts hpaste

theorem step_live (hcur : run.current = none) :
    run.step batch = ⟨(encodeInputBatchWithHint batch run.state).2,
      run.inputs ++ (encodeInputBatchWithHint batch run.state).1,
      run.segments ++ (encodeInputBatchWithHint batch run.state).1.map .live, none⟩ := by
  rw [step]
  rw [if_neg (by rw [hcounts]; decide), if_neg (by rw [hpaste]; decide), hcur]

include h

/-- A batch that is no paste closes the envelope. -/
theorem step_close (hcur : run.current = some before) : ∃ state live, run.step batch = ⟨state,
        run.inputs ++ .ofBytes (run.state.pasteCarryover ++ bracketedPasteEnd) :: live,
        run.segments ++ .envelope ⟨before.payloads ++
          [run.state.pasteCarryover ++ bracketedPasteEnd], before.texts⟩ :: live.map .live, none⟩ ∧
      state.pasteOpen = false ∧ state.pasteCarryover = [] := by
  obtain ⟨ho, hcar, hcloses⟩ := encode_other hcounts hpaste
  have hpasteOpen : run.state.pasteOpen = true := by rw [h.open_eq, hcur]; rfl
  obtain ⟨live, hlive⟩ := hcloses hpasteOpen
  have hheld : run.state.pasteCarryover.length < 6 := by
    rcases (h.current before hcur).2.starts with hnil | hstarts
    · simp [hnil]
    · exact (starts_marker_iff.mp hstarts).1
  rw [show stripEmbeddedPasteMarkers _ = _ from if_pos hheld] at hlive
  refine ⟨(encodeInputBatchWithHint batch run.state).2, live, ?_, ho,
    hcar.trans (if_pos hpasteOpen)⟩
  rw [step]
  rw [if_neg (by rw [hcounts]; decide), if_neg (by rw [hpaste]; decide), hcur, hlive]
  rfl

theorem Framed.live (hcur : run.current = none) : Framed (run.step batch) := by
  obtain ⟨ho, hcar, -⟩ := encode_other hcounts hpaste
  rw [h.carryover hcur, ite_self] at hcar
  have htgt : run.target.payloads = [] := by rw [target, hcur]; rfl
  rw [step_live hcounts hpaste hcur]
  refine h.closing ?_ (fun envelope henv => ?_) ho hcar
  · rw [htgt]
    simp [flatMap_map, Segment.inputs]
  · simp at henv

omit hcounts hpaste in
theorem closing_flatten (hcur : run.current = some before) :
    (before.payloads ++ [run.state.pasteCarryover ++ bracketedPasteEnd]).flatten =
      bracketedPasteStart ++ (before.openBody ++ run.state.pasteCarryover) ++
        bracketedPasteEnd := by
  rw [flatten_append, (h.current before hcur).1]
  simp

theorem Framed.close (hcur : run.current = some before) : Framed (run.step batch) := by
  obtain ⟨state, live, hst, ho, hcar⟩ := step_close h hcounts hpaste hcur
  have htgt : run.target = before := by rw [target, hcur]; rfl
  rw [hst]
  refine h.closing ?_ (fun envelope henv => ?_) ho hcar
  · rw [htgt]
    simp [flatMap_map, Segment.inputs]
  · rcases mem_cons.mp henv with heq | hlive
    · cases heq
      exact ⟨_, closing_flatten h hcur, _, _, (h.current before hcur).2, rfl⟩
    · simp at hlive

end Other

/-! ## Whole runs -/

theorem Framed.step (h : Framed run) (batch : InputBatch) : Framed (run.step batch) := by
  by_cases hcounts : run.Counts batch
  · cases hpaste : batch.isPaste run.state.pasteOpen with
    | true =>
      cases hdr : batch.drained with
      | true => exact h.drained hcounts hpaste hdr
      | false => exact h.undrained hcounts hpaste hdr
    | false =>
      cases hcur : run.current with
      | none => exact h.live hcounts hpaste hcur
      | some before => exact h.close hcounts hpaste hcur
  · rw [step_noise hcounts]
    exact h

variable (batches : List InputBatch)

theorem after_concat (batch : InputBatch) :
    after (batches ++ [batch]) = (after batches).step batch := by
  rw [after, foldl_append]
  rfl

theorem framed_after : Framed (after batches) := by
  induction batches using reverseRecOn with
  | nil => exact ⟨rfl, nofun, nofun, rfl, fun _ => rfl⟩
  | append_singleton batches batch ih =>
    rw [after_concat]
    exact ih.step batch

/-- What remains of a text is unique. -/
theorem remains_iff {text : List UInt8} (h : Remains pasteMarkers text body) (r : List UInt8) :
    Remains pasteMarkers text r ↔ r = body := by
  constructor
  · intro hr
    exact hr.unique marked_pasteMarkers h
  · rintro rfl
    exact h

theorem mem_envelopes {envelope : Envelope} : envelope ∈ run.envelopes ↔
    .envelope envelope ∈ run.segments ∨ run.current = some envelope := by
  rw [envelopes, mem_append, mem_filterMap, Option.mem_toList]
  refine or_congr_left ⟨?_, fun h => ⟨_, h, rfl⟩⟩
  rintro ⟨_ | _, hmem, heq⟩ <;> cases heq
  exact hmem

/-- The body of an envelope is what remains of its text exactly if its texts are seamless. -/
theorem remains_iff_seamless {envelope : Envelope} {sent held : List UInt8}
    (h : Sends pasteMarkers envelope.texts sent held) :
    (∀ rest, Remains pasteMarkers envelope.texts.flatten rest ↔ rest = sent ++ held) ↔
      Seamless pasteMarkers envelope.texts := by
  rw [← h.free_iff marked_pasteMarkers]
  exact ⟨fun hremains => ((hremains _).mpr rfl).2, fun hfree => remains_iff ⟨h.reduces, hfree⟩⟩

/-- Pasted text stays in its envelope exactly if no marker lies across the texts of one. -/
theorem Framed.contained_iff (h : Framed run) :
    Contained run ↔ ∀ envelope ∈ run.envelopes, Seamless pasteMarkers envelope.texts := by
  constructor
  · intro hcont envelope hmem
    rcases mem_envelopes.mp hmem with hclosed | hcur
    · obtain ⟨-, sent, held, hsends, hbody⟩ := h.closed envelope hclosed
      obtain ⟨body, hfl, hremains⟩ := hcont.closed envelope hclosed
      rw [← closedBody_eq hfl, hbody] at hremains
      exact (remains_iff_seamless hsends).mp hremains
    · obtain ⟨body, hfl, -, hremains⟩ := hcont.current envelope hcur
      rw [← openBody_eq hfl] at hremains
      exact (remains_iff_seamless (h.current envelope hcur).2).mp hremains
  · intro hseamless
    refine ⟨h.inputs, fun envelope hclosed => ?_, fun envelope hcur => ?_, ?_, ?_⟩
    · obtain ⟨hfl, sent, held, hsends, hbody⟩ := h.closed envelope hclosed
      rw [hbody] at hfl
      exact ⟨_, hfl, (remains_iff_seamless hsends).mpr
        (hseamless envelope (mem_envelopes.mpr (.inl hclosed)))⟩
    · obtain ⟨hfl, hsends⟩ := h.current envelope hcur
      have hthis := hseamless envelope (mem_envelopes.mpr (.inr hcur))
      exact ⟨_, hfl, hsends.free marked_pasteMarkers hthis, (remains_iff_seamless hsends).mpr hthis⟩
    · rw [h.open_eq]
    · intro hcar
      rw [h.open_eq]
      cases hcur : run.current with
      | none => exact absurd (h.carryover hcur) hcar
      | some envelope => rfl

/-- Pasted text stays in its envelope exactly if no marker lies across the texts that the batches of
one envelope bring : across what remains of the text so far, but for the longest end that begins a
marker, and what remains of that end and the texts that follow. -/
theorem paste_is_contained (batches : List InputBatch) : Contained (after batches) ↔
    ∀ envelope ∈ (after batches).envelopes, Seamless pasteMarkers envelope.texts :=
  (framed_after batches).contained_iff

/-- A key of a pasted character. -/
def textKey (virtualKeyCode unicodeChar : UInt16) : BatchEvent :=
  .key ⟨true, 1, virtualKeyCode, 0, unicodeChar, 0⟩

/-- The text `\x1b[20\x1b[20` comes in one batch and `1~1~` in the next. The first half is sent, the
second is completed by `1~` and removed, and the other `1~` closes the envelope from inside. -/
theorem paste_breaks_out :
    let batches : List InputBatch :=
      [⟨[textKey 0x1b 0x1b, textKey 0xdb 0x5b, textKey 0x32 0x32, textKey 0x30 0x30,
          textKey 0x1b 0x1b, textKey 0xdb 0x5b, textKey 0x32 0x32, textKey 0x30 0x30], false,
          ⟨false, false⟩⟩, ⟨[textKey 0x31 0x31, textKey 0xc0 0x7e, textKey 0x31 0x31,
          textKey 0xc0 0x7e], true, ⟨false, false⟩⟩]
    (after batches).inputs.flatMap AttachInput.bytes =
        bracketedPasteStart ++ bracketedPasteEnd ++ bracketedPasteEnd ∧
      ¬ Contained (after batches) := by
  refine ⟨by decide +kernel, fun hcontained => ?_⟩
  obtain ⟨body, hfl, hremains⟩ := hcontained.closed ⟨[bracketedPasteStart ++
    [0x1b, 0x5b, 0x32, 0x30], [0x31, 0x7e] ++ bracketedPasteEnd],
    [[0x1b, 0x5b, 0x32, 0x30, 0x1b, 0x5b, 0x32, 0x30], [0x31, 0x7e, 0x31, 0x7e]]⟩
    (by decide +kernel)
  have hfree : Free pasteMarkers body := ((hremains body).mpr rfl).2
  rw [← closedBody_eq hfl] at hfree
  exact hfree bracketedPasteEnd (by decide) (by decide +kernel)

end PasteRun

end Rmux
