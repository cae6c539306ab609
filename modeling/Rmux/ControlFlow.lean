import Mathlib.Data.List.Induction
import Mathlib.Data.List.Nodup
import Rmux.ControlOutput

/-!
# Flow control of a control client

For each pane the `%pause` and `%continue` lines that are written should alternate
(`ControlClient.pausedAfter`), and a flush should leave no pane paused. A `%continue` is written as
soon as what is queued has come down to the low mark, and a `%pause` that is queued among the last
bytes is then still to come. So it depends on what is queued behind a `%pause`
(`ControlClient.Ahead`, `flow_control_brackets`).
-/

namespace Rmux

open MachineInt List Nat ControlLine

/-- Whether a line pauses a pane or lets it go on. -/
def ControlLine.mark (paneId : PaneId) (line : ControlLine) : Option Bool :=
  match line.origin with
  | .pause pane => if pane = paneId then some true else none
  | .resume pane => if pane = paneId then some false else none
  | .output _ | .other => none

/-- The output lines of a pane that some events queue. -/
def eventOutputs (flags : ControlClientFlags) (paneId : PaneId) :
    List (ℕ × PaneEvent) → List (List UInt8)
  | [] => []
  | (now, .data pane bytes receivedAt) :: events =>
    (if ¬flags.noOutput ∧ pane = paneId then [outputLine flags now pane bytes receivedAt] else []) ++
      eventOutputs flags paneId events
  | (_, .lagged _) :: events => if flags.noOutput then eventOutputs flags paneId events else []

/-- The output lines of a pane for the events that a call handles. -/
def ControlCall.handled (paneId : PaneId) : ControlCall → List (List UInt8)
  | .paneEvent flags now event => eventOutputs flags.1 paneId [(now, event)]
  | .drain flags events => eventOutputs flags.1 paneId events
  | .enqueueLine .. | .flush .. => []

namespace ControlClient

variable {client : ControlClient} {blocks : List ControlBlock} {block : ControlBlock}
  {written : List Bool} {paneId : PaneId} {call : ControlCall} {paused : Prop} (order : DrainOrder)

/-! ## Marks -/

def marks (paneId : PaneId) (lines : List ControlLine) : List Bool :=
  lines.filterMap (ControlLine.mark paneId)

/-- Whether a pane is paused after some marks, if each mark changes that. -/
def pausedAfter : Bool → List Bool → Option Bool
  | paused, [] => some paused
  | paused, mark :: marks => if mark = paused then none else pausedAfter mark marks

theorem pausedAfter_append (paused : Bool) (marks marks' : List Bool) :
    pausedAfter paused (marks ++ marks') =
      (pausedAfter paused marks).bind fun paused => pausedAfter paused marks' := by
  induction marks generalizing paused with
  | nil => rfl
  | cons mark marks ih =>
    rw [cons_append, pausedAfter, pausedAfter, ih]
    split_ifs <;> rfl

theorem marks_append (paneId : PaneId) (lines lines' : List ControlLine) :
    marks paneId (lines ++ lines') = marks paneId lines ++ marks paneId lines' :=
  filterMap_append

/-- The output lines of a pane. -/
def outputs (paneId : PaneId) (lines : List ControlLine) : List (List UInt8) :=
  lines.filterMap fun line => if line.origin = .output paneId then some line.bytes else none

theorem outputs_append (paneId : PaneId) (lines lines' : List ControlLine) :
    outputs paneId (lines ++ lines') = outputs paneId lines ++ outputs paneId lines' :=
  filterMap_append

def queued (client : ControlClient) : List ControlLine := client.queue.blocks.map ControlBlock.line

/-- The length of some blocks. -/
def total (blocks : List ControlBlock) : ℕ := (blocks.map fun block => block.line.bytes.length).sum

theorem total_append (blocks blocks' : List ControlBlock) :
    total (blocks ++ blocks') = total blocks + total blocks' := by
  rw [total, map_append, List.sum_append]; rfl

theorem total_cons (block : ControlBlock) (blocks : List ControlBlock) :
    total (block :: blocks) = block.line.bytes.length + total blocks := rfl

/-- Behind every `%pause` line, with the line itself, there is more than the low mark. -/
def Ahead (blocks : List ControlBlock) : Prop :=
  ∀ front block rest paneId, blocks = front ++ block :: rest →
    block.line.origin = .pause paneId → controlBufferLow < total (block :: rest)

/-! ## What a run should do -/

def start : ControlClient := {}

/-- The flow control of a run is well bracketed. -/
structure Bracketed (calls : List ControlCall) : Prop where
  alternate : ∀ done rest, calls = done ++ rest → ∀ paneId,
    (pausedAfter false (marks paneId (start.after done).wire)).isSome
  resumed : ∀ done flags order now rest, calls = done ++ .flush flags order now :: rest →
    (start.after (done ++ [.flush flags order now])).queue.blocks = [] → ∀ paneId,
    pausedAfter false
      (marks paneId (start.after (done ++ [.flush flags order now])).wire) = some false
  counted : ∀ done rest, calls = done ++ rest →
    (start.after done).queue.bufferedBytes = total (start.after done).queue.blocks
  ordered : ∀ done rest, calls = done ++ rest → ∀ paneId,
    outputs paneId (start.after done).wire ++ outputs paneId (start.after done).queued =
      done.flatMap (ControlCall.handled paneId)

/-- What is queued can always be counted, and every flush finds enough behind the `%pause` lines. -/
structure Clear (calls : List ControlCall) : Prop where
  fits : ∀ done rest, calls = done ++ rest → total (start.after done).queue.blocks ≤ u64Max
  ahead : ∀ done flags order now rest, calls = done ++ .flush flags order now :: rest →
    Ahead (start.after done).queue.blocks

/-! ## Queueing -/

/-- A line that is no part of the flow control. -/
def Plain (origin : LineOrigin) : Prop := ∀ paneId, ControlLine.mark paneId ⟨origin, []⟩ = none

theorem plain_other : Plain .other := fun _ => rfl

/-- What a call that does not flush keeps : it queues lines, and pauses panes. -/
theorem step_induction {P : ControlClient → Prop}
    (hl : ∀ client o bs output now, Plain o → P client →
      P { client with queue := client.queue.enqueueLine o bs output now })
    (hpau : ∀ client flags now paneId, P client → P (client.pauseIfBehind flags now paneId))
    (h : P client) (hc : ∀ flags order now, call ≠ .flush flags order now) :
    P (client.step call) := by
  have hev (client : ControlClient) (h : P client) (flags : ControlClientFlags) (now : ℕ)
      (event : PaneEvent) : P (client.handlePaneEvent flags now event).2 := by
    unfold handlePaneEvent
    split_ifs
    · exact h
    · cases event with
      | data paneId bs receivedAt =>
        exact hl _ _ _ _ _ ((fun _ => rfl)) (hpau _ flags now paneId h)
      | lagged paneId => exact hl _ _ _ _ _ plain_other h
  cases call with
  | paneEvent flags now event => exact hev client h flags.1 now event
  | drain flags events =>
    rw [step]
    induction events generalizing client with
    | nil => exact h
    | cons e events ih =>
      have hnx := hev client h flags.1 e.1 e.2
      rw [drainReadyPaneEvents]
      cases hres : client.handlePaneEvent flags.1 e.1 e.2 with
      | mk dropped client' =>
        rw [hres] at hnx
        cases dropped with
        | true => exact hnx
        | false => exact ih hnx nofun
  | enqueueLine bs output now => exact hl _ _ _ _ _ plain_other h
  | flush flags order now => exact absurd rfl (hc flags order now)

theorem enqueueLine_eq {queue : ControlOutputQueue} (h : queue.transportClosed = false)
    (o : LineOrigin) (bs : List UInt8) (output : Bool) (now : ℕ) :
    ∃ line : ControlLine, line.origin = o ∧ (output = true → line.bytes = bs) ∧
      queue.enqueueLine o bs output now =
        ⟨queue.blocks ++ [⟨line, output, now⟩],
          satAdd64 queue.bufferedBytes line.bytes.length, false⟩ := by
  refine ⟨⟨o, if output then bs else ensureControlNewline bs⟩, rfl, ?_, ?_⟩
  · intro hout
    exact if_pos hout
  · rw [ControlOutputQueue.enqueueLine, h]
    rfl

/-- What is known of a client between the calls of a run. The wire leaves no pane paused, the queue
has a `%pause` line for each paused pane, and none is at its front. -/
structure Settled (client : ControlClient) : Prop where
  isOpen : client.queue.transportClosed = false
  counted : total client.queue.blocks ≤ u64Max → client.queue.bufferedBytes = total client.queue.blocks
  nodup : client.pausedPanes.Nodup
  wire : ∀ paneId, pausedAfter false (marks paneId client.wire) = some false
  pauses : ∀ paneId, marks paneId client.queued =
    if paneId ∈ client.pausedPanes then [true] else []
  behind : ∀ front block rest paneId, client.queue.blocks = front ++ block :: rest →
    block.line.origin = .pause paneId → front ≠ []

theorem settled_start : Settled start :=
  ⟨rfl, fun _ => rfl, nodup_nil, fun _ => rfl, fun _ => rfl, by simp [start]⟩

theorem counted_enqueue {buffered : ℕ} (h : total blocks ≤ u64Max → buffered = total blocks)
    (hft : total (blocks ++ [block]) ≤ u64Max) :
    satAdd64 buffered block.line.bytes.length = total (blocks ++ [block]) := by
  have htotal : total (blocks ++ [block]) = total blocks + block.line.bytes.length :=
    total_append blocks [block]
  rw [htotal] at hft ⊢
  rw [h (by omega), satAdd64_eq hft]

theorem behind_enqueue (h : ∀ front block r paneId, blocks = front ++ block :: r →
      block.line.origin = .pause paneId → front ≠ [])
    (hblock : ∀ paneId, block.line.origin = .pause paneId → blocks ≠ []) :
    ∀ front block' r paneId, blocks ++ [block] = front ++ block' :: r →
      block'.line.origin = .pause paneId → front ≠ [] := by
  rintro front block' r paneId heq ho rfl
  cases blocks with
  | nil =>
    cases heq
    exact hblock paneId ho rfl
  | cons first blocks =>
    cases heq
    exact h [] block' blocks paneId rfl ho rfl

theorem Settled.line (h : Settled client) {o : LineOrigin} (hpl : Plain o)
    (bs : List UInt8) (output : Bool) (now : ℕ) :
    Settled { client with queue := client.queue.enqueueLine o bs output now } := by
  obtain ⟨line, ho, -, hq⟩ := enqueueLine_eq h.isOpen o bs output now
  rw [hq]
  refine ⟨rfl, fun hft => counted_enqueue h.counted hft, h.nodup, h.wire, fun paneId => ?_,
    behind_enqueue h.behind fun paneId hpau => ?_⟩
  · have hm : mark paneId line = none := by
      have := hpl paneId
      rwa [mark, ← ho] at this
    have hold := h.pauses paneId
    rw [queued] at hold
    rw [queued, map_append, marks_append, hold]
    simp [marks, hm]
  · have := hpl paneId
    rw [mark, ← ho, hpau] at this
    simp at this

theorem Settled.pause (h : Settled client) (flags : ControlClientFlags) (now : ℕ)
    (paneId : PaneId) : Settled (client.pauseIfBehind flags now paneId) := by
  rw [pauseIfBehind]
  split_ifs with hbehind
  · obtain ⟨-, hhigh, hnew⟩ := hbehind
    obtain ⟨line, ho, -, hq⟩ :=
      enqueueLine_eq h.isOpen (.pause paneId) (formatPauseLine paneId) false now
    rw [hq]
    refine ⟨rfl, fun hft => counted_enqueue h.counted hft,
      nodup_cons.mpr ⟨hnew, h.nodup⟩, h.wire, fun pane => ?_,
      behind_enqueue h.behind fun _ _ hnil => ?_⟩
    · rw [queued, map_append, marks_append]
      have hold := h.pauses pane
      rw [queued] at hold
      rw [hold]
      by_cases hp : pane = paneId
      · subst hp
        simp [hnew, marks, mark, ho]
      · simp [hp, marks, mark, ho, Ne.symm hp]
    · -- a queue that is too long is not empty
      rw [h.counted (by rw [hnil]; exact zero_le _), hnil] at hhigh
      exact absurd hhigh (by decide)
  · exact h

theorem Settled.step (h : Settled client) (hc : ∀ flags order now, call ≠ .flush flags order now) :
    Settled (client.step call) :=
  step_induction (fun _ _ bs output now hpl h => h.line hpl bs output now)
    (fun _ flags now paneId h => h.pause flags now paneId) h hc

/-! ## The order of output -/

/-- The output of a pane that is written or queued. -/
def shown (paneId : PaneId) (client : ControlClient) : List (List UInt8) :=
  outputs paneId client.wire ++ outputs paneId client.queued

theorem shown_enqueueLine (h : client.queue.transportClosed = false) (paneId : PaneId)
    (o : LineOrigin) (bs : List UInt8) (output : Bool) (now : ℕ)
    (hout : o = .output paneId → output = true) :
    shown paneId { client with queue := client.queue.enqueueLine o bs output now } =
      shown paneId client ++ if o = .output paneId then [bs] else [] := by
  obtain ⟨line, rfl, hbs, hq⟩ := enqueueLine_eq h o bs output now
  rw [hq, shown, shown, queued, map_append, outputs_append, append_assoc]
  congr 2
  by_cases ho : line.origin = .output paneId
  · simp [outputs, ho, hbs (hout ho)]
  · simp [outputs, ho]

theorem shown_pauseIfBehind (h : client.queue.transportClosed = false) (paneId : PaneId)
    (flags : ControlClientFlags) (now : ℕ) (pane : PaneId) :
    shown paneId (client.pauseIfBehind flags now pane) = shown paneId client := by
  rw [pauseIfBehind]
  split_ifs
  · refine (shown_enqueueLine h paneId (.pause pane) (formatPauseLine pane) false now nofun).trans ?_
    rw [if_neg nofun, append_nil]
  · rfl

theorem isOpen_enqueueLine {queue : ControlOutputQueue} (h : queue.transportClosed = false)
    (o : LineOrigin) (bs : List UInt8) (output : Bool) (now : ℕ) :
    (queue.enqueueLine o bs output now).transportClosed = false := by
  obtain ⟨line, -, -, hq⟩ := enqueueLine_eq h o bs output now
  rw [hq]

variable (h : client.queue.transportClosed = false)

include h

theorem isOpen_pauseIfBehind (flags : ControlClientFlags) (now : ℕ) (pane : PaneId) :
    (client.pauseIfBehind flags now pane).queue.transportClosed = false := by
  rw [pauseIfBehind]
  split_ifs
  · exact isOpen_enqueueLine h _ _ _ _
  · exact h

/-- An event queues its own output. -/
theorem shown_handlePaneEvent (paneId : PaneId) (flags : ControlClientFlags) (now : ℕ)
    (event : PaneEvent) : shown paneId (client.handlePaneEvent flags now event).2 =
      shown paneId client ++ eventOutputs flags paneId [(now, event)] := by
  unfold handlePaneEvent
  cases hflag : flags.noOutput with
  | true => cases event <;> simp [eventOutputs, hflag]
  | false =>
    cases event with
    | data pane bytes receivedAt =>
      refine (shown_enqueueLine (isOpen_pauseIfBehind h flags now pane) paneId _ _ _ _
        fun _ => rfl).trans ?_
      rw [shown_pauseIfBehind h]
      simp [eventOutputs, hflag]
    | lagged pane =>
      refine (shown_enqueueLine h paneId .other tooFarBehind false now nofun).trans ?_
      simp [eventOutputs, hflag]

theorem isOpen_step (hc : ∀ flags order now, call ≠ .flush flags order now) :
    (client.step call).queue.transportClosed = false :=
  step_induction
    (fun _ o bs output now _ h => isOpen_enqueueLine h o bs output now)
    (fun _ flags now paneId h => isOpen_pauseIfBehind h flags now paneId) h hc

theorem shown_drain (paneId : PaneId) (flags : ExtendedFlags) (events : List (ℕ × PaneEvent)) :
    shown paneId (drainReadyPaneEvents flags.1 events client).2 =
      shown paneId client ++ eventOutputs flags.1 paneId events := by
  induction events generalizing client with
  | nil => rw [eventOutputs, append_nil]; rfl
  | cons e events ih =>
    obtain ⟨now, event⟩ := e
    have hshow := shown_handlePaneEvent h paneId flags.1 now event
    have ho : (client.handlePaneEvent flags.1 now event).2.queue.transportClosed = false :=
      by
      exact isOpen_step h (nofun : ∀ _ _ _, ControlCall.paneEvent flags now event ≠ _)
    rw [drainReadyPaneEvents]
    cases hres : client.handlePaneEvent flags.1 now event with
    | mk dropped client' =>
      rw [hres] at hshow ho
      cases event with
      | data pane bytes receivedAt =>
        have hk : dropped = false := by
          unfold handlePaneEvent at hres
          split_ifs at hres <;> exact (congrArg Prod.fst hres).symm
        subst hk
        refine (ih ho).trans ?_
        rw [hshow, append_assoc]
        simp [eventOutputs]
      | lagged pane =>
        cases hflag : flags.1.noOutput with
        | true =>
          simp only [handlePaneEvent, hflag, if_true, Prod.mk.injEq] at hres
          obtain ⟨rfl, rfl⟩ := hres
          simp only [eventOutputs, hflag, if_true]
          exact ih h
        | false =>
          simp only [handlePaneEvent, hflag] at hres
          cases hres
          simpa [eventOutputs, hflag] using hshow

omit h

/-! ## Flushing -/

/-- One block of a flush. -/
def writeBlock (order : DrainOrder) (client : ControlClient) (block : ControlBlock) :
    ControlClient :=
  let buffered := client.queue.bufferedBytes - block.line.bytes.length
  let client := { client with
    queue := { client.queue with bufferedBytes := buffered }
    wire := client.wire ++ [block.line] }
  if buffered ≤ controlBufferLow ∧ client.pausedPanes ≠ [] then
    { client with
      pausedPanes := []
      wire := client.wire ++ (order.1 client.pausedPanes).map fun paneId =>
        ⟨.resume paneId, formatContinueLine paneId⟩ }
  else client

theorem flushBlocks_eq {flags : ControlClientFlags} (h : flags.usesExtendedOutput = true)
    (order : DrainOrder) (now : ℕ) (blocks : List ControlBlock) (client : ControlClient) :
    flushBlocks flags order now blocks client =
      (false, { blocks.foldl (writeBlock order) client with
        queue := { (blocks.foldl (writeBlock order) client).queue with blocks := [] } }) := by
  induction blocks generalizing client with
  | nil => rfl
  | cons block blocks ih =>
    rw [flushBlocks, if_neg fun hold => hold.2.1 h, foldl_cons, writeBlock]
    simp only [ih]
    split_ifs <;> rfl

theorem step_flush (h : client.queue.transportClosed = false) (flags : ExtendedFlags)
    (order : DrainOrder) (now : ℕ) : client.step (.flush flags order now) =
      { client.queue.blocks.foldl (writeBlock order) client with
        queue := { (client.queue.blocks.foldl (writeBlock order) client).queue with
          blocks := [] } } := by
  rw [step, flushOutputQueue, h, if_neg Bool.false_ne_true, flushBlocks_eq flags.2]

/-- The `%continue` lines of some panes. -/
theorem marks_resume {ps : List PaneId} (h : ps.Nodup) (paneId : PaneId) :
    marks paneId (ps.map fun paneId => ⟨.resume paneId, formatContinueLine paneId⟩) =
      if paneId ∈ ps then [false] else [] := by
  induction ps with
  | nil => rfl
  | cons pane ps ih =>
    obtain ⟨hp, hps⟩ := nodup_cons.mp h
    have hr := ih hps
    rw [marks] at hr
    by_cases heq : pane = paneId
    · subst heq
      rw [if_neg hp] at hr
      simp [marks, mark, hr]
    · simp [marks, mark, heq, hr, Ne.symm heq]

theorem outputs_resume (ps : List PaneId) (paneId : PaneId) :
    outputs paneId (ps.map fun paneId => ⟨.resume paneId, formatContinueLine paneId⟩) = [] := by
  simp [outputs]

/-- What a block writes : its line, and perhaps `%continue` lines. -/
theorem wire_writeBlock (client : ControlClient) (block : ControlBlock) :
    ∃ ps : List PaneId, (writeBlock order client block).wire =
      client.wire ++ block.line ::
        ps.map fun paneId => ⟨.resume paneId, formatContinueLine paneId⟩ := by
  rw [writeBlock]
  split_ifs
  · exact ⟨order.1 client.pausedPanes, by rw [append_assoc]; rfl⟩
  · exact ⟨[], rfl⟩

theorem isOpen_writeBlock (client : ControlClient) (block : ControlBlock) :
    (writeBlock order client block).queue.transportClosed = client.queue.transportClosed := by
  rw [writeBlock]
  split_ifs <;> rfl

theorem outputs_foldl_writeBlock (paneId : PaneId) (blocks : List ControlBlock)
    (client : ControlClient) : outputs paneId (blocks.foldl (writeBlock order) client).wire =
      outputs paneId client.wire ++ outputs paneId (blocks.map ControlBlock.line) := by
  induction blocks generalizing client with
  | nil => exact (append_nil _).symm
  | cons block blocks ih =>
    obtain ⟨ps, hwire⟩ := wire_writeBlock order client block
    rw [foldl_cons, ih, hwire, map_cons, outputs_append,
      ← singleton_append, outputs_append, outputs_resume, append_nil,
      ← singleton_append (l := blocks.map _), outputs_append, append_assoc]

theorem isOpen_foldl_writeBlock (blocks : List ControlBlock) (client : ControlClient) :
    (blocks.foldl (writeBlock order) client).queue.transportClosed =
      client.queue.transportClosed := by
  induction blocks generalizing client with
  | nil => rfl
  | cons block blocks ih => rw [foldl_cons, ih, isOpen_writeBlock]

/-- A call shows the output of the events it handles. -/
theorem shown_step (h : client.queue.transportClosed = false) (paneId : PaneId)
    (call : ControlCall) :
    shown paneId (client.step call) = shown paneId client ++ call.handled paneId := by
  cases call with
  | paneEvent flags now event => exact shown_handlePaneEvent h paneId flags.1 now event
  | drain flags events => exact shown_drain h paneId flags events
  | enqueueLine bytes output now =>
    refine (shown_enqueueLine h paneId .other bytes output now nofun).trans ?_
    rfl
  | flush flags order now =>
    rw [step_flush h, shown]
    exact (congrArg (· ++ _) (outputs_foldl_writeBlock order paneId _ client)).trans (by
      simp [outputs, queued, shown, ControlCall.handled])

/-! ## Pauses in a flush -/

/-- A paused pane has its `%pause` line on the wire or in the queue, and no other has one open. -/
def PaneOk (paused : Prop) (written queued : List Bool) : Prop :=
  (paused ∧ pausedAfter false written = some true ∧ queued = []) ∨
    (paused ∧ pausedAfter false written = some false ∧ queued = [true]) ∨
    (¬paused ∧ pausedAfter false written = some false ∧ queued = [])

theorem PaneOk.write {queued : List Bool} {mark : Option Bool}
    (h : PaneOk paused written (mark.toList ++ queued)) :
    PaneOk paused (written ++ mark.toList) queued := by
  cases mark with
  | none => simpa using h
  | some mark =>
    obtain ⟨-, -, hq⟩ | ⟨hp, hw, hq⟩ | ⟨-, -, hq⟩ := h
    · simp at hq
    · obtain ⟨rfl, rfl⟩ : mark = true ∧ queued = [] := by simpa using hq
      refine .inl ⟨hp, ?_, rfl⟩
      rw [pausedAfter_append, hw]
      rfl
    · simp at hq

/-- Once its `%pause` is out, a `%continue` closes it. -/
theorem PaneOk.resume [Decidable paused] (h : PaneOk paused written []) :
    PaneOk False (written ++ if paused then [false] else []) [] := by
  refine .inr (.inr ⟨not_false, ?_, rfl⟩)
  obtain ⟨hp, hw, -⟩ | ⟨-, -, hq⟩ | ⟨hp, hw, -⟩ := h
  · rw [if_pos hp, pausedAfter_append, hw]
    rfl
  · simp at hq
  · rw [if_neg hp, append_nil, hw]

/-- What is known in the middle of a flush, with `blocks` still to write. -/
structure Flushing (client : ControlClient) (blocks : List ControlBlock) : Prop where
  counted : client.queue.bufferedBytes = total blocks
  nodup : client.pausedPanes.Nodup
  low : total blocks ≤ controlBufferLow → client.pausedPanes = []
  panes : ∀ paneId, PaneOk (paneId ∈ client.pausedPanes) (marks paneId client.wire)
    (marks paneId (blocks.map ControlBlock.line))

theorem Ahead.tail (h : Ahead (block :: blocks)) : Ahead blocks :=
  fun front pause r paneId heq => h (block :: front) pause r paneId (by rw [heq]; rfl)

theorem exists_pause_of_mark (h : true ∈ marks paneId (blocks.map ControlBlock.line)) :
    ∃ front block r, blocks = front ++ block :: r ∧ block.line.origin = .pause paneId := by
  obtain ⟨line, hl, hm⟩ := mem_filterMap.mp h
  obtain ⟨block, hblock, rfl⟩ := mem_map.mp hl
  obtain ⟨front, r, rfl⟩ := append_of_mem hblock
  refine ⟨front, block, r, rfl, ?_⟩
  unfold mark at hm
  split at hm
  · split_ifs at hm with hp
    rw [← hp]
    assumption
  all_goals simp at hm

/-- With little left to write, no `%pause` line is left. -/
theorem Ahead.marks_eq_nil (h : Ahead blocks) (hlow : total blocks ≤ controlBufferLow)
    (hp : PaneOk paused written (marks paneId (blocks.map ControlBlock.line))) :
    marks paneId (blocks.map ControlBlock.line) = [] := by
  obtain ⟨-, -, hq⟩ | ⟨-, -, hq⟩ | ⟨-, -, hq⟩ := hp
  · exact hq
  · obtain ⟨front, block, r, rfl, ho⟩ := exists_pause_of_mark (by rw [hq]; simp)
    have hbehind := h front block r paneId rfl ho
    rw [total_append] at hlow
    omega
  · exact hq

theorem Flushing.write (h : Flushing client (block :: blocks)) (hah : Ahead blocks)
    (order : DrainOrder) : Flushing (writeBlock order client block) blocks := by
  have hcnt : client.queue.bufferedBytes - block.line.bytes.length = total blocks := by
    rw [h.counted, total_cons, Nat.add_sub_cancel_left]
  have hps (paneId : PaneId) : PaneOk (paneId ∈ client.pausedPanes)
      (marks paneId (client.wire ++ [block.line])) (marks paneId (blocks.map ControlBlock.line)) := by
    have hmark : marks paneId [block.line] = (block.line.mark paneId).toList := by
      cases hm : block.line.mark paneId <;> simp [marks, hm]
    have hp := h.panes paneId
    rw [map_cons, ← singleton_append, marks_append, hmark] at hp
    rw [marks_append, hmark]
    exact hp.write
  rw [writeBlock]
  simp only [hcnt]
  split_ifs with hlow
  · obtain ⟨hlow, -⟩ := hlow
    refine ⟨rfl, nodup_nil, fun _ => rfl, fun paneId => ?_⟩
    have hnil := hah.marks_eq_nil hlow (hps paneId)
    have hp := hps paneId
    rw [hnil] at hp ⊢
    rw [marks_append, marks_resume ((order.2 _).nodup_iff.mpr h.nodup)]
    simp only [(order.2 client.pausedPanes).mem_iff]
    simpa using hp.resume
  · refine ⟨rfl, h.nodup, fun htotal => ?_, hps⟩
    by_contra hpau
    exact hlow ⟨htotal, hpau⟩

theorem Flushing.run (h : Flushing client blocks) (hah : Ahead blocks) (order : DrainOrder) :
    Flushing (blocks.foldl (writeBlock order) client) [] := by
  induction blocks generalizing client with
  | nil => exact h
  | cons block blocks ih => exact ih (h.write hah.tail order) hah.tail

theorem Settled.flushing (h : Settled client) (hft : total client.queue.blocks ≤ u64Max)
    (hah : Ahead client.queue.blocks) : Flushing client client.queue.blocks := by
  have hps (paneId : PaneId) : PaneOk (paneId ∈ client.pausedPanes) (marks paneId client.wire)
      (marks paneId (client.queue.blocks.map ControlBlock.line)) := by
    have hpause := h.pauses paneId
    by_cases hpau : paneId ∈ client.pausedPanes
    · rw [if_pos hpau] at hpause
      exact .inr (.inl ⟨hpau, h.wire paneId, hpause⟩)
    · rw [if_neg hpau] at hpause
      exact .inr (.inr ⟨hpau, h.wire paneId, hpause⟩)
  refine ⟨h.counted hft, h.nodup, fun hlow => ?_, hps⟩
  refine eq_nil_iff_forall_not_mem.mpr fun paneId hpau => ?_
  have hnil := hah.marks_eq_nil hlow (hps paneId)
  have hpause := h.pauses paneId
  rw [if_pos hpau, queued, hnil] at hpause
  simp at hpause

/-- A flush that finds enough behind the `%pause` lines leaves no pane paused. -/
theorem Settled.flush (h : Settled client) (hft : total client.queue.blocks ≤ u64Max)
    (hah : Ahead client.queue.blocks) (flags : ExtendedFlags) (order : DrainOrder) (now : ℕ) :
    Settled (client.step (.flush flags order now)) := by
  have hrun := (h.flushing hft hah).run hah order
  have hpau := hrun.low (zero_le _)
  rw [step_flush h.isOpen]
  refine ⟨?_, fun _ => hrun.counted, hrun.nodup, fun paneId => ?_, fun paneId => ?_, ?_⟩
  · exact (isOpen_foldl_writeBlock order _ client).trans h.isOpen
  · obtain ⟨hp, -⟩ | ⟨hp, -⟩ | ⟨-, hw, -⟩ := hrun.panes paneId
    · simp [hpau] at hp
    · simp [hpau] at hp
    · exact hw
  · rw [hpau]
    rfl
  · rintro front block r paneId heq
    simp at heq

/-! ## A flush that comes too early -/

theorem broken_foldl {order : DrainOrder} (blocks : List ControlBlock)
    (h : pausedAfter false (marks paneId client.wire) = none) :
    pausedAfter false (marks paneId (blocks.foldl (writeBlock order) client).wire) = none := by
  induction blocks generalizing client with
  | nil => exact h
  | cons block blocks ih =>
    refine ih ?_
    obtain ⟨ps, hwire⟩ := wire_writeBlock order client block
    rw [hwire, marks_append]
    rw [pausedAfter_append, h]; rfl

/-- If the queue comes down to the low mark before a `%pause` line, the `%continue` is written before
it. -/
theorem broken_of_pause {order : DrainOrder} {r : List ControlBlock}
    (hlow : total (block :: r) ≤ controlBufferLow) {front : List ControlBlock}
    (hfront : front ≠ []) (hmarks : marks paneId (front.map ControlBlock.line) = [])
    (hcnt : client.queue.bufferedBytes = total (front ++ block :: r))
    (hnd : client.pausedPanes.Nodup) (hpau : paneId ∈ client.pausedPanes)
    (hwire : pausedAfter false (marks paneId client.wire) = some false) : pausedAfter false
      (marks paneId ((front ++ block :: r).foldl (writeBlock order) client).wire) = none := by
  induction front generalizing client with
  | nil => exact absurd rfl hfront
  | cons first front ih =>
    have hfst : marks paneId [first.line] = [] ∧
        marks paneId (front.map ControlBlock.line) = [] := by
      rw [map_cons, ← singleton_append, marks_append] at hmarks
      exact append_eq_nil_iff.mp hmarks
    have hleft : client.queue.bufferedBytes - first.line.bytes.length =
        total (front ++ block :: r) := by
      rw [hcnt, cons_append, total_cons, Nat.add_sub_cancel_left]
    have hsm : marks paneId (client.wire ++ [first.line]) = marks paneId client.wire := by
      rw [marks_append, hfst.1, append_nil]
    rw [cons_append, foldl_cons, writeBlock]
    simp only [hleft]
    split_ifs with hcrossed
    · refine broken_foldl _ ?_
      rw [marks_append, hsm, marks_resume ((order.2 _).nodup_iff.mpr hnd),
        if_pos ((order.2 _).mem_iff.mpr hpau), pausedAfter_append, hwire]
      rfl
    · refine ih ?_ hfst.2 rfl hnd hpau (by rw [hsm, hwire])
      rintro rfl
      exact hcrossed ⟨hlow, ne_nil_of_mem hpau⟩

/-- A flush whose marks alternate finds enough behind the `%pause` lines. -/
theorem Settled.ahead (h : Settled client) (hft : total client.queue.blocks ≤ u64Max)
    (flags : ExtendedFlags) (order : DrainOrder) (now : ℕ) (halternate : ∀ paneId,
      (pausedAfter false (marks paneId (client.step (.flush flags order now)).wire)).isSome) :
    Ahead client.queue.blocks := by
  intro front block r paneId heq ho
  by_contra hlow
  have hm : marks paneId [block.line] = [true] := by
    simp [marks, mark, ho]
  have hpause := h.pauses paneId
  rw [queued, heq, map_append, map_cons, ← singleton_append, marks_append,
    marks_append, hm] at hpause
  by_cases hpau : paneId ∈ client.pausedPanes
  · rw [if_pos hpau] at hpause
    have hfront : marks paneId (front.map ControlBlock.line) = [] := by
      cases hmarks : marks paneId (front.map ControlBlock.line) with
      | nil => rfl
      | cons mark marks =>
        rw [hmarks] at hpause
        simp at hpause
    have hbroken : pausedAfter false (marks paneId
        ((front ++ block :: r).foldl (writeBlock order) client).wire) = none :=
      broken_of_pause (not_lt.mp hlow) (h.behind front block r paneId heq ho) hfront
        (heq ▸ h.counted hft) h.nodup hpau (h.wire paneId)
    have hs := halternate paneId
    rw [step_flush h.isOpen, heq, hbroken] at hs
    simp at hs
  · rw [if_neg hpau] at hpause
    simp at hpause

/-! ## Whole runs -/

theorem after_concat (client : ControlClient) (cs : List ControlCall) (call : ControlCall) :
    client.after (cs ++ [call]) = (client.after cs).step call := by
  rw [after, foldl_append]; rfl

theorem buffered_le (cs : List ControlCall) : (start.after cs).queue.transportClosed = false ∧
      (start.after cs).queue.bufferedBytes ≤ u64Max := by
  induction cs using reverseRecOn with
  | nil => exact ⟨rfl, zero_le _⟩
  | append_singleton cs call ih =>
    rw [after_concat]
    cases call with
    | flush flags order now =>
      rw [step_flush ih.1]
      refine ⟨(isOpen_foldl_writeBlock order _ _).trans ih.1, ?_⟩
      generalize (start.after cs).queue.blocks = blocks
      generalize start.after cs = client at ih
      obtain ⟨-, hle⟩ := ih
      induction blocks generalizing client with
      | nil => exact hle
      | cons block blocks hr =>
        refine hr _ ?_
        rw [writeBlock]
        split_ifs <;> exact (sub_le _ _).trans hle
    | _ =>
      refine step_induction
        (P := fun client => client.queue.transportClosed = false ∧
          client.queue.bufferedBytes ≤ u64Max)
        (fun client o bs output now _ h => ?_) (fun client flags now paneId h => ?_) ih nofun
      · obtain ⟨line, -, -, hq⟩ := enqueueLine_eq h.1 o bs output now
        rw [hq]
        exact ⟨rfl, min_le_right _ _⟩
      · rw [pauseIfBehind]
        split_ifs
        · obtain ⟨line, -, -, hq⟩ :=
            enqueueLine_eq h.1 (.pause paneId) (formatPauseLine paneId) false now
          rw [hq]
          exact ⟨rfl, min_le_right _ _⟩
        · exact h

/-- A client stays settled if its flushes find enough behind the `%pause` lines. -/
theorem settled_after {cs done r : List ControlCall}
    (hft : ∀ done r, cs = done ++ r → total (start.after done).queue.blocks ≤ u64Max)
    (hah : ∀ done flags order now r, cs = done ++ .flush flags order now :: r →
      Settled (start.after done) → Ahead (start.after done).queue.blocks)
    (hcs : cs = done ++ r) : Settled (start.after done) := by
  induction done using reverseRecOn generalizing r with
  | nil => exact settled_start
  | append_singleton done call ih =>
    rw [append_assoc] at hcs
    have hset := ih hcs
    rw [after_concat]
    cases call with
    | flush flags order now =>
      exact hset.flush (hft done _ hcs) (hah done flags order now r hcs hset) flags order now
    | _ => exact hset.step nofun

theorem Clear.settled {cs done r : List ControlCall} (h : Clear cs)
    (hcs : cs = done ++ r) : Settled (start.after done) :=
  settled_after h.fits (fun done flags order now r heq _ => h.ahead done flags order now r heq)
    hcs

theorem shown_after (cs : List ControlCall) (paneId : PaneId) :
    shown paneId (start.after cs) = cs.flatMap (ControlCall.handled paneId) := by
  induction cs using reverseRecOn with
  | nil => rfl
  | append_singleton cs call ih =>
    rw [after_concat, shown_step (buffered_le cs).1, ih, flatMap_append]
    simp

theorem clear_of_bracketed {calls : List ControlCall} (h : Bracketed calls) : Clear calls := by
  have hft (done r : List ControlCall) (hcs : calls = done ++ r) :
      total (start.after done).queue.blocks ≤ u64Max := by
    rw [← h.counted done r hcs]
    exact (buffered_le done).2
  -- a flush that comes too early would break the marks that it writes
  have hah (done : List ControlCall) (flags : ExtendedFlags) (order : DrainOrder) (now : ℕ)
      (r : List ControlCall) (hcs : calls = done ++ .flush flags order now :: r)
      (hset : Settled (start.after done)) : Ahead (start.after done).queue.blocks := by
    refine hset.ahead (hft done _ hcs) flags order now fun paneId => ?_
    rw [← after_concat]
    exact h.alternate _ r (by rw [hcs, append_assoc]; rfl) paneId
  exact ⟨hft, fun done flags order now r hcs =>
    hah done flags order now r hcs (settled_after hft hah hcs)⟩

/-- The flow control of a run is well bracketed exactly if every flush finds enough queued behind the
`%pause` lines, and what is queued can always be counted. -/
theorem flow_control_brackets (calls : List ControlCall) : Bracketed calls ↔ Clear calls := by
  refine ⟨clear_of_bracketed, fun h => ⟨fun done rest hcalls paneId => ?_,
    fun done flags order now rest hcalls _ paneId => ?_, fun done rest hcalls => ?_,
    fun done _ _ paneId => shown_after done paneId⟩⟩
  · rw [(h.settled hcalls).wire paneId]
    rfl
  · have hflushed : calls = (done ++ [.flush flags order now]) ++ rest := by
      rw [hcalls, append_assoc]
      rfl
    exact (h.settled hflushed).wire paneId
  · exact (h.settled hcalls).counted (h.fits done rest hcalls)

/-! ## A `%continue` before its `%pause` -/

def extended : ExtendedFlags := ⟨⟨some 0, false, false⟩, rfl⟩

/-- Nine thousand bytes from commands, then one byte of output of a pane, then a flush. -/
def lateOutput : List ControlCall :=
  List.replicate 9 (.enqueueLine (List.replicate 999 0x61) false 0) ++
    [.paneEvent extended 0 (.data 1 [0x61] 0), .flush extended ⟨id, fun _ => .rfl⟩ 0]

/-- The `%continue` line comes first, and the `%pause` line after it stays open. -/
theorem late_output_continues_first :
    marks 1 (start.after lateOutput).wire = [false, true] ∧ ¬ Bracketed lateOutput := by
  have hmarks : marks 1 (start.after lateOutput).wire = [false, true] := by decide +kernel
  refine ⟨hmarks, fun h => ?_⟩
  have hsome := h.alternate lateOutput [] (append_nil _).symm 1
  rw [hmarks] at hsome
  cases hsome

end ControlClient

end Rmux
