import Mathlib.Data.List.Forall2

/-!
# Reading frames from a stream

A read returns the first message and takes its frame off, or waits and leaves the buffer, or fails.
There may be several kinds of reads, and a kind may pass over messages that are not for it. On what
satisfies `Framing` it does not matter how a stream is cut and when it is read
(`Framing.reassembles`), and once everything is pushed, reads that pass over nothing return the
other messages (`Framing.Progress.drain`).
-/

namespace FrameStream

open List

/-- Messages `μ` as frames of bytes `α`, read by reads `ρ` that fail with `ε`. A read that cannot be
carried out is `none`. -/
structure Framing (α μ ε ρ : Type) where
  frame : μ → Option (List α)
  read : ρ → List α → Option (Except ε (Option μ) × List α)
  passes : ρ → μ → Prop
  frame_ne_nil : ∀ {m f}, frame m = some f → f ≠ []
  read_nil : ∀ r, read r [] = some (.ok none, [])
  read_unfinished : ∀ {m f b} r, frame m = some f → b <+: f → b ≠ f → read r b = some (.ok none, b)
  read_passed : ∀ {m f r}, frame m = some f → passes r m → ∀ rest,
    read r (f ++ rest) = some (.ok none, f ++ rest)
  read_complete : ∀ {m f r}, frame m = some f → ¬passes r m → ∀ rest,
    read r (f ++ rest) = some (.ok (some m), rest)

/-- Bytes are pushed, or a message is read. -/
inductive Op (α ρ : Type)
  | push (bytes : List α)
  | read (r : ρ)

/-- What was pushed. -/
def pushed {α ρ : Type} : List (Op α ρ) → List α
  | [] => []
  | .push bytes :: ops => bytes ++ pushed ops
  | .read _ :: ops => pushed ops

/-- The buffer, and what the reads returned. -/
structure State (α μ ε : Type) where
  buffer : List α
  outputs : List (Except ε (Option μ))

/-- The messages returned. -/
def State.messages {α μ ε : Type} (st : State α μ ε) : List μ :=
  st.outputs.filterMap fun output => output.toOption.join

namespace Framing

variable {α μ ε ρ : Type} (F : Framing α μ ε ρ)

def step (st : State α μ ε) : Op α ρ → Option (State α μ ε)
  | .push bytes => some { st with buffer := st.buffer ++ bytes }
  | .read r => (F.read r st.buffer).map fun out => ⟨out.2, st.outputs ++ [out.1]⟩

def run (st : State α μ ε) (ops : List (Op α ρ)) : Option (State α μ ε) := ops.foldlM F.step st

/-- The messages `read` were returned, and `left` are the others. The buffer is what was pushed of
their frames. -/
structure Progress (read left : List μ) (frames : List (List α)) (st : State α μ ε) : Prop where
  framed : List.Forall₂ (fun m f => F.frame m = some f) left frames
  messages : st.messages = read
  outputs : ∀ output ∈ st.outputs, ∃ m, output = .ok m
  buffer : st.buffer <+: frames.flatten

variable {F} {read left : List μ} {frames : List (List α)} {st : State α μ ε} {m : μ} {f : List α}
  {r : ρ}

theorem messages_append (b : List α) (output : Except ε (Option μ)) :
    State.messages ⟨b, st.outputs ++ [output]⟩ =
      st.messages ++ output.toOption.join.toList := by
  rw [State.messages, State.messages, filterMap_append]
  cases h : output.toOption.join <;> simp [h]

/-- A read that waits changes nothing. -/
theorem Progress.wait (h : F.Progress read left frames st) :
    F.Progress read left frames ⟨st.buffer, st.outputs ++ [.ok none]⟩ := by
  refine ⟨h.framed, ?_, fun output hout => ?_, h.buffer⟩
  · rw [messages_append, h.messages]
    exact append_nil read
  · rcases mem_append.mp hout with hout | hout
    · exact h.outputs output hout
    · exact ⟨none, mem_singleton.mp hout⟩

/-- A read that returns the first message takes its frame off. -/
theorem Progress.take (h : F.Progress read (m :: left) (f :: frames) st) {rest : List α}
    (hbuf : st.buffer = f ++ rest) :
    F.Progress (read ++ [m]) left frames ⟨rest, st.outputs ++ [.ok (some m)]⟩ := by
  refine ⟨(forall₂_cons.mp h.framed).2, ?_, fun output hout => ?_, ?_⟩
  · rw [messages_append, h.messages]
    rfl
  · rcases mem_append.mp hout with hout | hout
    · exact h.outputs output hout
    · exact ⟨some m, mem_singleton.mp hout⟩
  · have hbuf' := h.buffer
    rw [hbuf, flatten_cons] at hbuf'
    exact (prefix_append_right_inj f).mp hbuf'

/-- With the first frame in the buffer its message is returned. -/
theorem Progress.read_first (h : F.Progress read (m :: left) (f :: frames) st)
    (hf : f <+: st.buffer) (hr : ¬F.passes r m) :
    F.read r st.buffer = some (.ok (some m), st.buffer.drop f.length) := by
  obtain ⟨rest, hrest⟩ := hf
  rw [← hrest, drop_left, F.read_complete (forall₂_cons.mp h.framed).1 hr]

/-- Without it, or if the read passes over it, nothing is. -/
theorem Progress.read_waits (h : F.Progress read left frames st)
    (hr : ∀ m ∈ left.head?, ∀ f ∈ frames.head?, f <+: st.buffer → F.passes r m) :
    F.read r st.buffer = some (.ok none, st.buffer) := by
  have hbuf := h.buffer
  cases h.framed with
  | nil =>
    rw [prefix_nil.mp hbuf]
    exact F.read_nil r
  | @cons m f left frames hm hleft =>
    by_cases hf : f <+: st.buffer
    · obtain ⟨rest, hrest⟩ := hf
      have hpasses := hr m rfl f rfl ⟨rest, hrest⟩
      rw [← hrest, F.read_passed hm hpasses]
    · rw [flatten_cons] at hbuf
      rcases prefix_or_prefix_of_prefix (prefix_append f frames.flatten) hbuf with
        hwhole | hpartial
      · exact absurd hwhole hf
      · exact F.read_unfinished r hm hpartial fun heq => hf (heq ▸ prefix_refl _)

/-- One read. -/
theorem Progress.step_read (h : F.Progress read left frames st) (r : ρ) :
    ∃ st', F.step st (.read r) = some st' ∧
      ((F.Progress read left frames st' ∧ st'.buffer = st.buffer) ∨
        ∃ m left' f frames', left = m :: left' ∧ frames = f :: frames' ∧
          st.buffer = f ++ st'.buffer ∧ F.Progress (read ++ [m]) left' frames' st') := by
  by_cases hr : ∀ m ∈ left.head?, ∀ f ∈ frames.head?, f <+: st.buffer → F.passes r m
  · exact ⟨⟨st.buffer, st.outputs ++ [.ok none]⟩, by rw [step, h.read_waits hr]; rfl,
      .inl ⟨h.wait, rfl⟩⟩
  · push Not at hr
    obtain ⟨m, hm, f, hf, ⟨rest, hrest⟩, hpasses⟩ := hr
    obtain ⟨left', rfl⟩ : ∃ left', left = m :: left' := by
      cases left with
      | nil => cases hm
      | cons m' left' => exact ⟨left', by rw [Option.some.inj hm]⟩
    obtain ⟨frames', rfl⟩ : ∃ frames', frames = f :: frames' := by
      cases frames with
      | nil => cases hf
      | cons f' frames' => exact ⟨frames', by rw [Option.some.inj hf]⟩
    have hrd := h.read_first ⟨rest, hrest⟩ hpasses
    rw [← hrest, drop_left, hrest] at hrd
    exact ⟨⟨rest, st.outputs ++ [.ok (some m)]⟩, by rw [step, hrd]; rfl,
      .inr ⟨m, left', f, frames', rfl, rfl, hrest.symm, h.take hrest.symm⟩⟩

/-- The whole rest in the buffer is returned, message by message. -/
theorem Progress.drain (h : F.Progress read left frames st) (hall : st.buffer = frames.flatten)
    (hr : ∀ m, ¬F.passes r m) : ∃ st', F.run st (List.replicate left.length (.read r)) = some st' ∧
      F.Progress (read ++ left) [] [] st' := by
  induction left generalizing read frames st with
  | nil =>
    have hfrs : frames = [] := forall₂_nil_left_iff.mp h.framed
    rw [hfrs] at h
    exact ⟨st, rfl, by rwa [append_nil]⟩
  | cons m left ih =>
    obtain ⟨f, frames, -, -, rfl⟩ := forall₂_cons_left_iff.mp h.framed
    rw [flatten_cons] at hall
    have hrd := h.read_first ⟨_, hall.symm⟩ (hr m)
    rw [hall, drop_left, ← hall] at hrd
    obtain ⟨st', hrun, hst'⟩ := ih (h.take hall) rfl
    refine ⟨st', ?_, by rwa [append_assoc] at hst'⟩
    rw [length_cons, replicate_succ, run, foldlM_cons, step, hrd]
    exact hrun

/-- What any pushes and reads lead to. -/
structure Reassembled (F : Framing α μ ε ρ) (msgs : List μ) (frames : List (List α))
    (ops : List (Op α ρ)) (st : State α μ ε) (n : ℕ) : Prop where
  messages : st.messages = msgs.take n
  outputs : ∀ output ∈ st.outputs, ∃ m, output = .ok m
  buffer : pushed ops = (frames.take n).flatten ++ st.buffer
  returns : ∀ {m f r}, msgs[n]? = some m → frames[n]? = some f → f <+: st.buffer → ¬F.passes r m →
    F.read r st.buffer = some (.ok (some m), st.buffer.drop f.length)
  waits : ∀ {r}, (∀ m f, msgs[n]? = some m → frames[n]? = some f → f <+: st.buffer →
    F.passes r m) → F.read r st.buffer = some (.ok none, st.buffer)
  drains : pushed ops = frames.flatten → ∀ {r}, (∀ m, ¬F.passes r m) →
    ∃ st', F.run st (List.replicate (msgs.length - n) (.read r)) = some st' ∧
      st'.messages = msgs ∧ (∀ output ∈ st'.outputs, ∃ m, output = .ok m) ∧ st'.buffer = []

variable {ops : List (Op α ρ)}

/-- Pushes and reads keep the messages in order. -/
theorem Progress.run (h : F.Progress read left frames st)
    (hpu : st.buffer ++ pushed ops <+: frames.flatten) : ∃ st' n, F.run st ops = some st' ∧
      F.Progress (read ++ left.take n) (left.drop n) (frames.drop n) st' ∧
      st.buffer ++ pushed ops = (frames.take n).flatten ++ st'.buffer := by
  induction ops generalizing read left frames st with
  | nil =>
    refine ⟨st, 0, rfl, ?_, ?_⟩
    · rwa [take_zero, append_nil]
    · rw [pushed, append_nil, take_zero, flatten_nil, nil_append]
  | cons op ops ih =>
    cases op with
    | push bytes =>
      rw [pushed, ← append_assoc] at hpu ⊢
      exact @ih read left frames { st with buffer := st.buffer ++ bytes }
        ⟨h.framed, h.messages, h.outputs, (prefix_append _ _).trans hpu⟩ hpu
    | read r =>
      obtain ⟨st₁, hstep, hst₁⟩ := h.step_read r
      have hrun : ∀ st', F.run st₁ ops = some st' → F.run st (.read r :: ops) = some st' := by
        intro st' h'
        rw [Framing.run, foldlM_cons, hstep]
        exact h'
      rcases hst₁ with ⟨hprog, hbuf⟩ | ⟨m, left, f, frames, rfl, rfl, hbuf, hprog⟩
      · rw [pushed, ← hbuf] at hpu ⊢
        obtain ⟨st', n, h₁, h₂, h₃⟩ := ih hprog hpu
        exact ⟨st', n, hrun st' h₁, h₂, h₃⟩
      · rw [pushed, hbuf, append_assoc] at hpu ⊢
        obtain ⟨st', n, h₁, h₂, h₃⟩ := ih hprog ((prefix_append_right_inj f).mp hpu)
        refine ⟨st', n + 1, hrun st' h₁, ?_, ?_⟩
        · rwa [append_assoc] at h₂
        · rw [h₃, take_succ_cons, flatten_cons, append_assoc]

/-- However the frames of messages are cut into pushes and whenever they are read, the messages
come back in order. -/
theorem reassembles {msgs : List μ}
    (hfrs : List.Forall₂ (fun m f => F.frame m = some f) msgs frames) (hpu : pushed ops <+: frames.flatten) :
    ∃ st n, F.run ⟨[], []⟩ ops = some st ∧ F.Reassembled msgs frames ops st n := by
  have hst : F.Progress [] msgs frames ⟨[], []⟩ :=
    ⟨hfrs, rfl, fun _ h => absurd h not_mem_nil, nil_prefix⟩
  obtain ⟨st, n, hrun, hprog, hbuf⟩ := hst.run hpu
  rw [nil_append] at hprog hbuf
  refine ⟨st, n, hrun, hprog.messages, hprog.outputs, hbuf, ?_, ?_, ?_⟩
  · intro m f r hm hf hpre hr
    rw [← head?_drop] at hm hf
    obtain ⟨left, hleft⟩ := head?_eq_some_iff.mp hm
    obtain ⟨frames', hfrs'⟩ := head?_eq_some_iff.mp hf
    rw [hleft, hfrs'] at hprog
    exact hprog.read_first hpre hr
  · intro r hr
    refine hprog.read_waits fun m hm f hf => ?_
    rw [head?_drop] at hm hf
    exact hr m f hm hf
  · intro hall r hr
    have hwhole : st.buffer = (frames.drop n).flatten := by
      have hspl : frames.flatten = (frames.take n).flatten ++ (frames.drop n).flatten := by
        rw [← flatten_append, take_append_drop]
      exact append_cancel_left (hbuf.symm.trans (hall.trans hspl))
    obtain ⟨st', hrun', hst'⟩ := hprog.drain hwhole hr
    rw [length_drop] at hrun'
    exact ⟨st', hrun', by rw [hst'.messages, take_append_drop], hst'.outputs,
      prefix_nil.mp hst'.buffer⟩

end Framing

end FrameStream
