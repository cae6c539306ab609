import Mathlib.Data.List.Infix
import Rmux.ExceptLemmas
import Rmux.InputResume

/-!
# Reading in pieces

The loop goes on in the next read where it has stopped (`decodeLoop_append`, `decodeLoop_resume`).
Reads that are cut where a cut makes no difference, and that never keep more than is allowed, give
the items of one read of all the bytes (`reads_eq_read`). A mouse report of three bytes that is cut
after its start is read as something else (`cut_mouse_report`).
-/

namespace Rmux.Input

open List Option Except Prod

variable {surface : Surface} {last : Option MouseForwardEvent} {p c q s r : List UInt8}
  {state : InputState}

/-! ## The loop on longer input -/

theorem Decoding.after_after (items items' : List InputItem) (d : Decoding) :
    (d.after items').after items = d.after (items ++ items') := by
  simp [Decoding.after]

/-- What is not decided, as bytes. -/
def Decoding.tail (d : Decoding) : List UInt8 := (d.undecided.map Prod.fst).getD []

/-- How much of the input is new plays no part when it plays none at the first place and after it. -/
theorem decodeLoop_congr {n : ℕ} (hat : decodeAt surface last n s = decodeAt surface last 0 s)
    (hr : ∀ size last', 0 < size → (decodeAt surface last 0 s).size? = some size →
      decodeLoop surface last' (n - size) (s.drop size) = decodeLoop surface last' 0 (s.drop size)) :
    decodeLoop surface last n s = decodeLoop surface last 0 s := by
  by_cases hs : s = []
  · subst hs
    rw [decodeLoop_nil, decodeLoop_nil]
  have hft : (decodeAt surface last 0 s).Fits s.length := decodeAt_fits 0 hs
  cases hdec : decodeAt surface last 0 s with
  | item item size reroute =>
    rw [hdec] at hat hft hr
    rw [decodeLoop_item hs hat, decodeLoop_item hs hdec, Nat.zero_sub, ite_self]
    cases reroute with
    | true => rfl
    | false => exact congrArg _ (hr size _ hft.1 rfl)
  | raw size =>
    rw [hdec] at hat hft hr
    rw [decodeLoop_raw hs hat, decodeLoop_raw hs hdec, Nat.zero_sub, hr size last hft.1 rfl]
  | retain retention =>
    rw [hdec] at hat
    rw [decodeLoop_retain hs hat, decodeLoop_retain hs hdec]

/-- Bytes that were kept may be seen as new when the first place is, and what it leaves of them is. -/
theorem decodeLoop_of_rest
    (hat : decodeAt surface last p.length (p ++ c) = decodeAt surface last 0 (p ++ c))
    (hr : ∀ size last', 0 < size → (decodeAt surface last 0 (p ++ c)).size? = some size →
      decodeLoop surface last' (p.drop size).length (p.drop size ++ c) =
        decodeLoop surface last' 0 (p.drop size ++ c)) :
    decodeLoop surface last p.length (p ++ c) = decodeLoop surface last 0 (p ++ c) := by
  refine decodeLoop_congr hat fun size last' hpos hsz => ?_
  by_cases hle : size ≤ p.length
  · have h := hr size last' hpos hsz
    rwa [length_drop, ← drop_append_of_le_length hle] at h
  · rw [Nat.sub_eq_zero_of_le (by omega)]

theorem decodeLoop_calm (h : Calm q) :
    decodeLoop surface last q.length (q ++ c) = decodeLoop surface last 0 (q ++ c) := by
  induction hlen : q.length using Nat.strong_induction_on generalizing q last with
  | _ n ih =>
    subst hlen
    cases q with
    | nil => rfl
    | cons byte rest =>
      refine decodeLoop_of_rest ?_ fun size last' hpos _ => ?_
      · by_cases hb : byte = 0x1b
        · refine decodeAt_of_le surface last ?_ _
          exact h _ suffix_rfl (by rw [hb]; rfl)
        · exact decodeAt_of_ne surface last hb _
      · refine ih _ ?_ (h.drop size) rfl
        rw [length_drop]
        exact Nat.sub_lt (Nat.succ_pos _) hpos

variable {retention : Retention}

/-- What was kept is decoded again as if all the bytes were new. -/
theorem decodeLoop_resume (hret : decodeAt surface last 0 p = .retain retention)
    (hms : startsWith [0x1b, 0x5b, 0x4d] p = true → answers p c = false) :
    decodeLoop surface last p.length (p ++ c) = decodeLoop surface last 0 (p ++ c) := by
  refine decodeLoop_of_rest (decodeAt_resume hret hms) fun size last' hpos hsz => ?_
  exact decodeLoop_calm (calm_of_retained hret hsz hpos)

/-- The loop over more bytes goes on with what is undecided. -/
theorem decodeLoop_append (hbd : ∀ t, t <:+ s ++ r → unfinishedSgrMouse t = false)
    (ho : ∀ t, t <:+ s → isOpenCsi t = true →
      answers t r = false ∧ decodeCsiKey (t ++ r) = .invalid) : decodeLoop surface last 0 (s ++ r) =
      (decodeLoop surface (decodeLoop surface last 0 s).last 0
        ((decodeLoop surface last 0 s).tail ++ r)).after (decodeLoop surface last 0 s).items := by
  induction hlen : s.length using Nat.strong_induction_on generalizing s last with
  | _ n ih =>
    subst hlen
    by_cases hs : s = []
    · subst hs
      rw [decodeLoop_nil]
      rfl
    have hne : s ++ r ≠ [] := append_ne_nil_of_left_ne_nil hs r
    have hft : (decodeAt surface last 0 s).Fits s.length := decodeAt_fits 0 hs
    have hr {size : ℕ} (hsz : 0 < size ∧ size ≤ s.length) (last' : Option MouseForwardEvent) :=
      @ih (s.drop size).length (by
        rw [length_drop]
        exact sub_lt_of_fits hs hsz) last' (s.drop size)
        (fun t ht => hbd t (by
          rw [← drop_append_of_le_length hsz.2] at ht
          exact ht.trans (drop_suffix _ _)))
        (fun t ht => ho t (ht.trans (drop_suffix _ _))) rfl
    cases hdec : decodeAt surface last 0 s with
    | item item size reroute =>
      have hgr := (decodeAt_append hs (by rw [hdec]; nofun) (hbd _ suffix_rfl)
        (ho _ suffix_rfl)).trans hdec
      rw [hdec] at hft
      rw [decodeLoop_item hne hgr, decodeLoop_item hs hdec, Nat.zero_sub, ite_self,
        drop_append_of_le_length hft.2, hr hft, Decoding.after_after]
      rfl
    | raw size =>
      have hgr := (decodeAt_append hs (by rw [hdec]; nofun) (hbd _ suffix_rfl)
        (ho _ suffix_rfl)).trans hdec
      rw [hdec] at hft
      rw [decodeLoop_raw hne hgr, decodeLoop_raw hs hdec, Nat.zero_sub,
        drop_append_of_le_length hft.2, take_append_of_le_length hft.2, hr hft,
        Decoding.after_after]
      rfl
    | retain retention =>
      rw [decodeLoop_retain hs hdec]
      rfl

/-- What is undecided is waited for. -/
theorem decodeAt_of_undecided {tail : List UInt8}
    (h : (decodeLoop surface last 0 s).undecided = some (tail, retention)) :
    decodeAt surface (decodeLoop surface last 0 s).last 0 tail = .retain retention ∧ tail <:+ s := by
  induction hlen : s.length using Nat.strong_induction_on generalizing s last with
  | _ n ih =>
    subst hlen
    by_cases hs : s = []
    · subst hs
      rw [decodeLoop_nil] at h
      cases h
    have hft : (decodeAt surface last 0 s).Fits s.length := decodeAt_fits 0 hs
    have hlt {size : ℕ} (hsz : 0 < size ∧ size ≤ s.length) : (s.drop size).length < s.length := by
      rw [length_drop]
      exact sub_lt_of_fits hs hsz
    cases hdec : decodeAt surface last 0 s with
    | item item size reroute =>
      rw [hdec] at hft
      rw [decodeLoop_item hs hdec, Nat.zero_sub, ite_self] at h ⊢
      exact (ih _ (hlt hft) h rfl).imp_right fun hsuf => hsuf.trans (drop_suffix _ _)
    | raw size =>
      rw [hdec] at hft
      rw [decodeLoop_raw hs hdec, Nat.zero_sub] at h ⊢
      exact (ih _ (hlt hft) h rfl).imp_right fun hsuf => hsuf.trans (drop_suffix _ _)
    | retain retention =>
      rw [decodeLoop_retain hs hdec] at h ⊢
      obtain ⟨rfl, rfl⟩ := mk.inj (some.inj h)
      exact ⟨hdec, suffix_rfl⟩

theorem tail_suffix : (decodeLoop surface last 0 s).tail <:+ s := by
  unfold Decoding.tail
  match hund : (decodeLoop surface last 0 s).undecided with
  | none => exact nil_suffix
  | some (tail, retention) => exact (decodeAt_of_undecided hund).2

/-! ## Reads -/

variable (surface) in
/-- No read keeps more bytes than the decoder that waits for them may keep. -/
def WithinLimits : InputState → List (List UInt8) → Prop
  | _, [] => True
  | state, chunk :: chunks =>
    (∀ tail retention, (readChunk surface state chunk).undecided = some (tail, retention) →
      tail.length ≤ retention.limit) ∧
    ∀ items state', feed surface state chunk = .ok (items, state') → WithinLimits state' chunks

variable (surface) in
/-- Every read is cut where a cut makes no difference. -/
def CleanCuts : InputState → List (List UInt8) → Prop
  | _, [] => True
  | state, chunk :: chunks =>
    cleanCut state.pending chunk chunks.flatten = true ∧
    ∀ items state', feed surface state chunk = .ok (items, state') → CleanCuts state' chunks

/-- What is kept is waited for, and no more than is allowed. -/
structure Waiting (surface : Surface) (state : InputState) : Prop where
  retained : state.pending ≠ [] → ∃ retention,
    decodeAt surface state.last 0 state.pending = .retain retention ∧
      state.pending.length ≤ retention.limit

theorem retain_of_le {d : Decoding}
    (h : ∀ tail retention, d.undecided = some (tail, retention) → tail.length ≤ retention.limit) :
    retain d.undecided = .ok ([], d.tail) := by
  unfold Decoding.tail
  match hund : d.undecided with
  | none => rfl
  | some (tail, retention) =>
  replace h := h tail retention hund
  cases retention with
  | bracketedPaste =>
    have hsh : takeIncompleteBracketedPasteSegment tail maxRetainedAttachedControlInput = none :=
      if_pos (Or.inl h)
    simp only [retain, hsh, retainPartialAttachedInput, if_pos h]
    rfl
  | _ =>
    simp only [retain, retainPartialAttachedInput, if_pos h]
    rfl

/-- A read that keeps no more than is allowed. -/
theorem feed_of_le
    (h : ∀ tail retention, (readChunk surface state c).undecided = some (tail, retention) →
      tail.length ≤ retention.limit) :
    feed surface state c = .ok ((readChunk surface state c).items,
      ⟨(readChunk surface state c).tail, (readChunk surface state c).last⟩) := by
  simp only [feed, retain_of_le h, ok_bind, append_nil]
  rfl

theorem Waiting.readChunk_eq (h : Waiting surface state)
    (hms : startsWith [0x1b, 0x5b, 0x4d] state.pending = true → answers state.pending c = false) :
    readChunk surface state c = decodeLoop surface state.last 0 (state.pending ++ c) := by
  unfold readChunk
  by_cases hpend : state.pending = []
  · rw [hpend]
    rfl
  · obtain ⟨retention, hret, -⟩ := h.retained hpend
    exact decodeLoop_resume hret hms

theorem Waiting.decodeLoop_pending (h : Waiting surface state) :
    (decodeLoop surface state.last 0 state.pending).items = [] ∧
      (decodeLoop surface state.last 0 state.pending).tail = state.pending ∧
      (decodeLoop surface state.last 0 state.pending).last = state.last ∧
      ∀ tail retention,
        (decodeLoop surface state.last 0 state.pending).undecided = some (tail, retention) →
        tail.length ≤ retention.limit := by
  by_cases hpend : state.pending = []
  · rw [hpend, decodeLoop_nil]
    exact ⟨rfl, rfl, rfl, nofun⟩
  · obtain ⟨retention, hret, hlim⟩ := h.retained hpend
    rw [decodeLoop_retain hpend hret]
    refine ⟨rfl, rfl, rfl, fun tail retention' heq => ?_⟩
    obtain ⟨rfl, rfl⟩ := mk.inj (some.inj heq)
    exact hlim

theorem cleanCut_spec {kept chunk later : List UInt8} (h : cleanCut kept chunk later = true) :
    (startsWith [0x1b, 0x5b, 0x4d] kept = true → answers kept chunk = false) ∧
      ∀ t, t <:+ kept ++ chunk → isOpenCsi t = true →
        answers t later = false ∧ decodeCsiKey (t ++ later) = .invalid := by
  rw [cleanCut, Bool.and_eq_true_iff, List.all_eq_true] at h
  refine ⟨fun hms => by simpa [hms] using h.1, fun t ht ho => ?_⟩
  simpa [ho] using h.2 t (mem_tails _ _ |>.mpr ht)

/-- A run of reads is one run of the loop over all the bytes. -/
theorem feedAll_eq {chunks : List (List UInt8)} (hwaiting : Waiting surface state)
    (hbd : ∀ t, t <:+ state.pending ++ chunks.flatten → unfinishedSgrMouse t = false)
    (hlim : WithinLimits surface state chunks) (hclean : CleanCuts surface state chunks) :
    let d := decodeLoop surface state.last 0 (state.pending ++ chunks.flatten)
    feedAll surface state chunks = .ok (d.items, ⟨d.tail, d.last⟩) ∧
      ∀ tail retention, d.undecided = some (tail, retention) → tail.length ≤ retention.limit := by
  induction chunks generalizing state with
  | nil =>
    obtain ⟨hits, htail, hl, hlimit⟩ := hwaiting.decodeLoop_pending
    simp only [flatten_nil, append_nil]
    rw [hits, htail, hl]
    exact ⟨rfl, hlimit⟩
  | cons chunk chunks ih =>
    obtain ⟨hlimit, hlim⟩ := hlim
    obtain ⟨hcut, hclean⟩ := hclean
    obtain ⟨hms, ho⟩ := cleanCut_spec hcut
    have hrd := hwaiting.readChunk_eq hms
    have hfeed := feed_of_le hlimit
    rw [hrd] at hlimit hfeed
    set d := decodeLoop surface state.last 0 (state.pending ++ chunk) with hd
    have hwaiting' : Waiting surface ⟨d.tail, d.last⟩ := by
      refine ⟨fun hne => ?_⟩
      match hund : d.undecided with
      | none =>
        simp only [Decoding.tail, hund] at hne
        exact absurd rfl hne
      | some (tail, retention) =>
        have htail : d.tail = tail := by simp [Decoding.tail, hund]
        refine ⟨retention, ?_, ?_⟩
        · rw [htail]
          exact (decodeAt_of_undecided hund).1
        · rw [htail]
          exact hlimit tail retention hund
    have hwhole : decodeLoop surface state.last 0 (state.pending ++ (chunk :: chunks).flatten) =
        (decodeLoop surface d.last 0 (d.tail ++ chunks.flatten)).after d.items := by
      rw [flatten_cons, ← append_assoc] at hbd ⊢
      exact decodeLoop_append hbd ho
    have hbd' : ∀ t, t <:+ d.tail ++ chunks.flatten → unfinishedSgrMouse t = false := by
      intro t ht
      obtain ⟨before, hbef⟩ : d.tail <:+ state.pending ++ chunk := tail_suffix
      refine hbd t (ht.trans ⟨before, ?_⟩)
      rw [← append_assoc, hbef, flatten_cons, append_assoc]
    obtain ⟨hr, hlim'⟩ := ih hwaiting' hbd' (hlim _ _ hfeed) (hclean _ _ hfeed)
    rw [hwhole]
    refine ⟨?_, hlim'⟩
    simp only [feedAll, hfeed, ok_bind]
    rw [hr]
    rfl

/-- In every run of reads, none of them cut where a cut makes a difference, the items and what is kept
are those of one read of all the bytes. -/
theorem reads_eq_read (surface : Surface) (last : Option MouseForwardEvent)
    (chunks : List (List UInt8))
    (hbounded : ∀ t, t <:+ chunks.flatten → unfinishedSgrMouse t = false)
    (hlimits : WithinLimits surface ⟨[], last⟩ chunks)
    (hclean : CleanCuts surface ⟨[], last⟩ chunks) :
    ∃ items state, feedAll surface ⟨[], last⟩ chunks = .ok (items, state) ∧
      feed surface ⟨[], last⟩ chunks.flatten = .ok (items, state) := by
  have hwaiting : Waiting surface ⟨[], last⟩ := ⟨fun hne => absurd rfl hne⟩
  obtain ⟨hcut, hlimit⟩ := feedAll_eq hwaiting hbounded hlimits hclean
  exact ⟨_, _, hcut, feed_of_le hlimit⟩

/-- A client without bound keys. -/
def plainSurface : Surface where
  focusEvents := false
  backspace := none
  plainKeys := ⟨none, none, []⟩
  handled _ := false
  remember _ event := some event

/-- A mouse report of three bytes, the second of them a `c`, that is cut after its start is taken for an
answer of the terminal. A report that its first 32 bytes do not finish is discarded with all that is
read together with it. -/
theorem cut_mouse_report :
    (∀ t ∈ [0x1b, 0x5b, 0x4d, 0x20, 0x63, 0x21].tails, unfinishedSgrMouse t = false) ∧
      (feedAll plainSurface ⟨[], none⟩ [[0x1b, 0x5b, 0x4d], [0x20, 0x63, 0x21]]).toOption =
        some ([.consumed [0x1b, 0x5b, 0x4d, 0x20, 0x63], .raw 0x21], ⟨[], none⟩) ∧
      (feed plainSurface ⟨[], none⟩ [0x1b, 0x5b, 0x4d, 0x20, 0x63, 0x21]).toOption =
        some ([.mouse ⟨0, 0, 66, 0, 0, 0, 0, 0x20, false⟩],
          ⟨[], some ⟨0, 0, 66, 0, 0, 0, 0, 0x20, false⟩⟩) ∧
      let report := [0x1b, 0x5b, 0x3c] ++ replicate 32 0x30 ++ [0x3b, 0x31, 0x3b, 0x31, 0x4d]
      (feedAll plainSurface ⟨[], none⟩ [report, [0x61]]).toOption =
          some ([.discardedMouse report, .raw 0x61], ⟨[], none⟩) ∧
        (feed plainSurface ⟨[], none⟩ (report ++ [0x61])).toOption =
          some ([.discardedMouse (report ++ [0x61])], ⟨[], none⟩) := by
  decide +kernel

/-- A key with modifiers may be cut. -/
theorem cut_modified_arrow :
    ∃ items state,
      feedAll plainSurface ⟨[], none⟩ [[0x61, 0x1b, 0x5b, 0x31], [0x3b, 0x35, 0x41]] =
          .ok (items, state) ∧
        feed plainSurface ⟨[], none⟩ [0x61, 0x1b, 0x5b, 0x31, 0x3b, 0x35, 0x41] =
          .ok (items, state) := by
  have hfirst : feed plainSurface ⟨[], none⟩ [0x61, 0x1b, 0x5b, 0x31] =
      .ok ([.raw 0x61], ⟨[0x1b, 0x5b, 0x31], none⟩) :=
    toOption_eq_some_iff.mp (by decide +kernel)
  have hkept : (readChunk plainSurface ⟨[], none⟩ [0x61, 0x1b, 0x5b, 0x31]).undecided =
      some ([0x1b, 0x5b, 0x31], .terminalResponse) := by
    decide +kernel
  have hdone : (readChunk plainSurface ⟨[0x1b, 0x5b, 0x31], none⟩ [0x3b, 0x35, 0x41]).undecided =
      none := by
    decide +kernel
  refine reads_eq_read plainSurface none [[0x61, 0x1b, 0x5b, 0x31], [0x3b, 0x35, 0x41]] ?_ ?_ ?_
  · intro t ht
    have hall : ∀ t ∈ [0x61, 0x1b, 0x5b, 0x31, 0x3b, 0x35, 0x41].tails,
        unfinishedSgrMouse t = false := by
      decide +kernel
    exact hall t ((mem_tails t _).mpr ht)
  · refine ⟨fun tail retention h => ?_, fun items state h => ?_⟩
    · obtain ⟨rfl, rfl⟩ := mk.inj (some.inj (hkept.symm.trans h))
      decide
    · obtain ⟨-, rfl⟩ := mk.inj (ok.inj (hfirst.symm.trans h))
      refine ⟨fun tail retention h => ?_, fun _ _ _ => trivial⟩
      cases hdone.symm.trans h
  · refine ⟨by decide +kernel, fun items state h => ?_⟩
    obtain ⟨-, rfl⟩ := mk.inj (ok.inj (hfirst.symm.trans h))
    exact ⟨by decide +kernel, fun _ _ _ => trivial⟩

end Rmux.Input
