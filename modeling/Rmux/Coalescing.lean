import Mathlib.Algebra.GroupWithZero.Nat
import Mathlib.Data.List.Chain
import Mathlib.Data.List.Induction
import Mathlib.Order.Bounds.Defs
import Mathlib.Order.Fin.Basic
import Rmux.ListLemmas

/-!
# Coalesced snapshot notifications

The coalescer of a pane (`events/coalescing.rs`) is told of every revision of the pane's snapshot
and passes some of them on. Emissions are kept apart by a least interval, and what may not be
emitted yet waits until a poll. The freshest revision is never lost as long as no revision is told a
second time while another one waits (`keeps_freshest_iff`). A second has no more emissions than the
rate only if the rate divides it (`cap_holds_iff`).
-/

namespace Rmux

/-! ## The coalescer -/

/-- An instant of the monotonic clock in nanoseconds. Its seconds are an `i64`. -/
def instantLimit : ℕ := 2 ^ 63 * 1000000000

instance : NeZero instantLimit := ⟨by decide⟩

abbrev Instant := Fin instantLimit

/-- `Duration::MAX` in nanoseconds. -/
def durationMax : ℕ := 2 ^ 64 * 1000000000 - 1

def Instant.checkedAdd (instant : Instant) (duration : ℕ) : Option Instant :=
  if h : instant.val + duration < instantLimit then some ⟨instant.val + duration, h⟩ else none

def minIntervalForRate (rate : ℕ) : ℕ :=
  if rate = 0 then durationMax else 1000000000 / rate

/-- The revision that was emitted last, and when. -/
structure EmittedRevision where
  revision : UInt64
  instant : Instant
deriving DecidableEq

/-- A revision that waits to be emitted. -/
structure PendingRevision where
  revision : UInt64
  observedAt : Instant
deriving DecidableEq

/-- The least interval between emissions, the last emission and what waits. -/
structure SnapshotCoalescer where
  minInterval : ℕ
  lastEmitted : Option EmittedRevision
  pending : Option PendingRevision
deriving DecidableEq

namespace SnapshotCoalescer

def new (maxPerSecond : ℕ) : SnapshotCoalescer :=
  ⟨minIntervalForRate maxPerSecond, none, none⟩

variable (c : SnapshotCoalescer)

def mayEmitAt (now : Instant) : Bool :=
  match c.lastEmitted with
  | none => true
  | some emitted => c.minInterval ≤ now.val - emitted.instant.val

def commitEmission (revision : UInt64) (now : Instant) : SnapshotCoalescer :=
  { c with lastEmitted := some ⟨revision, now⟩ }

def lastEmittedRevision : Option UInt64 :=
  c.lastEmitted.map EmittedRevision.revision

def pendingRevision : Option UInt64 :=
  c.pending.map PendingRevision.revision

def observe (revision : UInt64) (now : Instant) : Option UInt64 × SnapshotCoalescer :=
  if c.lastEmittedRevision = some revision then
    -- another revision that waits is left where it is
    (none, if c.pendingRevision = some revision then { c with pending := none } else c)
  else if c.mayEmitAt now then
    (some revision, { c.commitEmission revision now with pending := none })
  else (none, { c with pending := some ⟨revision, now⟩ })

def poll (now : Instant) : Option UInt64 × SnapshotCoalescer :=
  match c.pending with
  | none => (none, c)
  | some pending =>
    if !c.mayEmitAt now then (none, c)
    else if c.lastEmittedRevision = some pending.revision then (none, { c with pending := none })
    else (some pending.revision, { c.commitEmission pending.revision now with pending := none })

def nextDeadline : Option Instant :=
  c.pending.map fun pending =>
    match c.lastEmitted with
    | none => pending.observedAt
    | some emitted =>
      match emitted.instant.checkedAdd c.minInterval with
      | some earliest => max pending.observedAt earliest
      | none => pending.observedAt

end SnapshotCoalescer

open SnapshotCoalescer Option Nat
open List hiding after

/-! ## Runs -/

/-- A call of the coalescer. -/
inductive CoalescerCall
  | observe (revision : UInt64) (now : Instant)
  | poll (now : Instant)

def CoalescerCall.now : CoalescerCall → Instant
  | .observe _ now => now
  | .poll now => now

/-- An emission, with the revision that was observed last by then. -/
structure Emission extends EmittedRevision where
  observed : Option UInt64
deriving DecidableEq

/-- A coalescer, the revision observed last, and the emissions, newest first. -/
structure CoalescerRun where
  coalescer : SnapshotCoalescer
  observed : Option UInt64
  emissions : List Emission

namespace CoalescerRun

/-- What is written down of a call that has been answered. -/
def answered (run : CoalescerRun) (observed : Option UInt64) (now : Instant)
    (answer : Option UInt64 × SnapshotCoalescer) : CoalescerRun :=
  ⟨answer.2, observed,
    (answer.1.map fun revision => ⟨⟨revision, now⟩, observed⟩).toList ++ run.emissions⟩

def step (run : CoalescerRun) : CoalescerCall → CoalescerRun
  | .observe revision now =>
    run.answered (some revision) now (run.coalescer.observe revision now)
  | .poll now => run.answered run.observed now (run.coalescer.poll now)

/-- The calls are made one after the other on a new coalescer. -/
def after (rate : ℕ) (calls : List CoalescerCall) : CoalescerRun :=
  calls.foldl step ⟨.new rate, none, []⟩

theorem after_concat (rate : ℕ) (calls : List CoalescerCall) (call : CoalescerCall) :
    after rate (calls ++ [call]) = (after rate calls).step call :=
  foldl_concat step _ call calls

end CoalescerRun

open CoalescerRun

variable {run : CoalescerRun} {rate : ℕ} {calls : List CoalescerCall} {call : CoalescerCall}
  {now : Instant}

theorem SnapshotCoalescer.mayEmitAt_iff {c : SnapshotCoalescer} : c.mayEmitAt now = true ↔
      ∀ e ∈ c.lastEmitted, c.minInterval ≤ now.val - e.instant.val := by
  rw [mayEmitAt]
  cases c.lastEmitted <;> simp

variable {revision : UInt64}

theorem CoalescerRun.step_observe_emits (hnew : run.coalescer.lastEmittedRevision ≠ some revision)
    (hmay : run.coalescer.mayEmitAt now = true) : run.step (.observe revision now) =
      ⟨⟨run.coalescer.minInterval, some ⟨revision, now⟩, none⟩, some revision,
        ⟨⟨revision, now⟩, some revision⟩ :: run.emissions⟩ := by
  rw [step, observe, if_neg hnew, if_pos hmay]
  rfl

/-- A call emits a revision other than the last one, after the interval, or it changes at most what
waits. -/
theorem CoalescerRun.step_cases (run : CoalescerRun) (call : CoalescerCall) :
    (∃ revision, run.coalescer.lastEmittedRevision ≠ some revision ∧
      run.coalescer.mayEmitAt call.now = true ∧
      (run.step call).coalescer =
        ⟨run.coalescer.minInterval, some ⟨revision, call.now⟩, none⟩ ∧
      ∃ observed, (run.step call).emissions =
        ⟨⟨revision, call.now⟩, observed⟩ :: run.emissions) ∨
    (run.step call).emissions = run.emissions ∧
      (run.step call).coalescer.minInterval = run.coalescer.minInterval ∧
      (run.step call).coalescer.lastEmitted = run.coalescer.lastEmitted := by
  cases call with
  | observe revision now =>
    simp only [step, observe, answered]
    split_ifs with hsm hpend hmay
    · exact .inr ⟨rfl, rfl, rfl⟩
    · exact .inr ⟨rfl, rfl, rfl⟩
    · exact .inl ⟨revision, hsm, hmay, rfl, _, rfl⟩
    · exact .inr ⟨rfl, rfl, rfl⟩
  | poll now =>
    simp only [step, poll, answered]
    cases hpend : run.coalescer.pending with
    | none => exact .inr ⟨rfl, rfl, rfl⟩
    | some pending =>
      by_cases hmay : run.coalescer.mayEmitAt now
      · by_cases hsm : run.coalescer.lastEmittedRevision = some pending.revision
        · simp [hmay, hsm]
        · simp only [hmay, hsm, Bool.not_true, Bool.false_eq_true, if_false]
          exact .inl ⟨pending.revision, hsm, hmay, rfl, _, rfl⟩
      · simp [hmay]

/-- What the coalescer knows of its emissions. -/
structure Paced (rate : ℕ) (run : CoalescerRun) : Prop where
  interval : run.coalescer.minInterval = minIntervalForRate rate
  last : run.coalescer.lastEmitted = run.emissions.head?.map Emission.toEmittedRevision
  distinct : run.emissions.IsChain (·.revision ≠ ·.revision)
  apart : 0 < minIntervalForRate rate → run.emissions.Pairwise fun e e' =>
    e'.instant.val + minIntervalForRate rate ≤ e.instant.val

theorem Paced.lastRevision (h : Paced rate run) :
    run.coalescer.lastEmittedRevision = run.emissions.head?.map (·.revision) := by
  rw [lastEmittedRevision, h.last, Option.map_map]
  rfl

theorem Paced.step (h : Paced rate run) (call : CoalescerCall) : Paced rate (run.step call) := by
  rcases run.step_cases call with ⟨revision, hnew, hmay, hc, observed, he⟩ | ⟨he, hi, hl⟩
  · refine ⟨by rw [hc, h.interval], by rw [hc, he]; rfl, ?_, fun hpos => ?_⟩
    · rw [he]
      refine h.distinct.cons fun e hhd heq => hnew ?_
      rw [h.lastRevision, hhd]
      exact congrArg some heq.symm
    · rw [he]
      refine .cons (fun e hmem => ?_) (h.apart hpos)
      -- the emission before this one is no earlier than `e`
      obtain ⟨newest, older, hlist⟩ := exists_cons_of_ne_nil (ne_nil_of_mem hmem)
      have hlast := mayEmitAt_iff.mp hmay newest.toEmittedRevision (by rw [h.last, hlist]; rfl)
      have hapart := h.apart hpos
      rw [hlist, pairwise_cons] at hapart
      rw [h.interval] at hlast
      rw [hlist] at hmem
      rcases mem_cons.mp hmem with rfl | hold
      · simp only
        omega
      · have hle := hapart.1 e hold
        simp only
        omega
  · refine ⟨by rw [hi, h.interval], by rw [hl, he, h.last], ?_, ?_⟩ <;> rw [he]
    · exact h.distinct
    · exact h.apart

theorem paced_after (rate : ℕ) (calls : List CoalescerCall) : Paced rate (after rate calls) := by
  induction calls using reverseRecOn with
  | nil => exact ⟨rfl, rfl, .nil, fun _ => .nil⟩
  | append_singleton calls call ih =>
    rw [after_concat]
    exact ih.step call

/-! ## The cap -/

/-- No second has more emissions than the rate, and with the rate 0 there are none. -/
def CapHolds (rate : ℕ) : Prop :=
  ∀ calls : List CoalescerCall, calls.Pairwise (·.now ≤ ·.now) →
    (rate = 0 → (after rate calls).emissions = []) ∧
    ∀ start : Instant, ((after rate calls).emissions.filter fun e =>
      start ≤ e.instant ∧ e.instant.val < start.val + 1000000000).length ≤ rate

/-- Instants that are `gap` apart reach over all the gaps between them. -/
theorem gaps_le_head {gap : ℕ} {start : Instant} {e : Emission} {es : List Emission}
    (hgap : (e :: es).Pairwise fun e e' => e'.instant.val + gap ≤ e.instant.val)
    (hin : ∀ e' ∈ e :: es, start ≤ e'.instant) : start.val + es.length * gap ≤ e.instant.val := by
  induction es generalizing e with
  | nil => simpa using hin e
  | cons e' es ih =>
    obtain ⟨hhd, htail⟩ := pairwise_cons.mp hgap
    have hnx := hhd e' (mem_cons_self ..)
    have hr := ih htail fun b hb => hin b (mem_cons_of_mem _ hb)
    rw [length_cons, succ_mul]
    omega

theorem capHolds_of_dvd (h : rate ∣ 1000000000) : CapHolds rate := by
  have hrate : 0 < rate := pos_of_dvd_of_pos h (by decide)
  have hmul : rate * minIntervalForRate rate = 1000000000 := by
    rw [minIntervalForRate, if_neg hrate.ne', Nat.mul_div_cancel' h]
  have hpos : 0 < minIntervalForRate rate := by
    by_contra hz
    rw [Nat.eq_zero_of_not_pos hz] at hmul
    cases hmul
  refine fun calls _ => ⟨fun hz => absurd hz hrate.ne', fun start => ?_⟩
  generalize hes : (after rate calls).emissions.filter _ = es
  have hin : ∀ e ∈ es, start ≤ e.instant ∧ e.instant.val < start.val + 1000000000 := by
    intro e he
    rw [← hes, mem_filter] at he
    simpa using he.2
  cases es with
  | nil => exact zero_le _
  | cons e es =>
    have hgap := (paced_after rate calls).apart hpos |>.filter fun e =>
      start ≤ e.instant ∧ e.instant.val < start.val + 1000000000
    rw [hes] at hgap
    have hreach := gaps_le_head hgap fun e' he' => (hin e' he').1
    have hend := (hin e (mem_cons_self ..)).2
    have hlt : es.length * minIntervalForRate rate < rate * minIntervalForRate rate := by omega
    exact Nat.lt_of_mul_lt_mul_right hlt

/-- Observations of two revisions in turn, as fast as the interval allows. -/
def burst (rate n : ℕ) : List CoalescerCall :=
  (List.range n).map fun k =>
    .observe (if k % 2 = 0 then 0 else 1) (Fin.ofNat _ (k * minIntervalForRate rate))

/-- Every call of a burst is answered with its revision. -/
theorem after_burst : ∀ n, n * minIntervalForRate rate < instantLimit →
    ∃ observed es, after rate (burst rate (n + 1)) =
      ⟨⟨minIntervalForRate rate, some ⟨if n % 2 = 0 then 0 else 1,
        Fin.ofNat _ (n * minIntervalForRate rate)⟩, none⟩, observed, es⟩ ∧ es.length = n + 1 ∧
      ∀ e ∈ es, e.instant.val ≤ n * minIntervalForRate rate
  | 0, _ => by
    refine ⟨_, _, rfl, rfl, fun e he => ?_⟩
    rw [List.mem_singleton.mp he]
    simp
  | n + 1, h => by
    have hmul : (n + 1) * minIntervalForRate rate =
      n * minIntervalForRate rate + minIntervalForRate rate := succ_mul ..
    obtain ⟨observed, es, hrun, hlen, hin⟩ := after_burst n (by omega)
    rw [burst, range_succ, map_append, map_singleton, ← burst, after_concat, hrun,
      step_observe_emits]
    · refine ⟨_, _, rfl, by rw [length_cons, hlen], fun e he => ?_⟩
      rcases mem_cons.mp he with rfl | he
      · exact mod_le ..
      · have := hin e he
        omega
    · simp only [lastEmittedRevision, map_some, ne_eq, some.injEq]
      split_ifs <;> first | omega | decide
    · refine mayEmitAt_iff.mpr fun e he => ?_
      cases he
      simp only [Fin.val_ofNat]
      rw [mod_eq_of_lt h, mod_eq_of_lt (by omega)]
      omega

theorem timed_burst {n : ℕ} (h : n * minIntervalForRate rate < instantLimit) :
    (burst rate (n + 1)).Pairwise (·.now ≤ ·.now) := by
  refine pairwise_map.mpr (pairwise_lt_range.imp_of_mem fun {k l} hk hl hkl => ?_)
  have hlt : ∀ m ∈ range (n + 1), m * minIntervalForRate rate < instantLimit := fun m hm =>
    (mul_le_mul_right _ (le_of_lt_succ (mem_range.mp hm))).trans_lt h
  simp only [CoalescerCall.now, Fin.le_def, Fin.val_ofNat]
  rw [mod_eq_of_lt (hlt k hk), mod_eq_of_lt (hlt l hl)]
  exact mul_le_mul_right _ hkl.le

theorem dvd_of_capHolds (h : CapHolds rate) : rate ∣ 1000000000 := by
  rcases Nat.eq_zero_or_pos rate with rfl | hrate
  · cases (h [.observe 0 0] (pairwise_singleton ..)).1 rfl
  by_contra hdvd
  -- the rounded intervals do not fill the second, so one more emission has its place
  have hlt : rate * minIntervalForRate rate < 1000000000 := by
    rw [minIntervalForRate, if_neg hrate.ne']
    exact (mul_div_le ..).lt_of_ne fun heq => hdvd ⟨_, heq.symm⟩
  have hlim : rate * minIntervalForRate rate < instantLimit := hlt.trans (by decide)
  obtain ⟨observed, es, hrun, hlen, hin⟩ := after_burst rate hlim
  have hcap := (h (burst rate (rate + 1)) (timed_burst hlim)).2 0
  rw [hrun, filter_eq_self.mpr fun e he => ?_, hlen] at hcap
  · omega
  · have := hin e he
    simp
    omega

theorem cap_holds_iff (rate : ℕ) : CapHolds rate ↔ rate ∣ 1000000000 :=
  ⟨dvd_of_capHolds, capHolds_of_dvd⟩

/-- Four emissions of a rate of three in the first second. -/
theorem cap_fails_at_three :
    (after 3 (burst 3 4)).emissions.map (·.instant.val) =
      [999999999, 666666666, 333333333, 0] ∧ ¬CapHolds 3 := by
  refine ⟨by decide, fun hcap => ?_⟩
  exact absurd ((hcap (burst 3 4) (by decide)).2 0) (by decide)

/-- The emissions of a run in a span of time. -/
def CoalescerRun.emissionsIn (run : CoalescerRun) (start : Instant) (span : ℕ) : List Emission :=
  run.emissions.filter fun e => start ≤ e.instant ∧ e.instant.val < start.val + span

/-- What the rounded interval allows in a span of time is one emission for each interval begun, and
some run has as many. -/
theorem emissions_in_span (hpos : 0 < minIntervalForRate rate) {span : ℕ} (hspan : 0 < span)
    (hlimit : span ≤ instantLimit) :
    IsGreatest {n | ∃ calls start, calls.Pairwise (·.now ≤ ·.now) ∧
      n = ((after rate calls).emissionsIn start span).length}
      ((span - 1) / minIntervalForRate rate + 1) := by
  have hmul := Nat.div_mul_le_self (span - 1) (minIntervalForRate rate)
  constructor
  · have hlim : (span - 1) / minIntervalForRate rate * minIntervalForRate rate < instantLimit := by
      omega
    obtain ⟨observed, es, hrun, hlen, hin⟩ := after_burst _ hlim
    refine ⟨_, 0, timed_burst hlim, ?_⟩
    rw [emissionsIn, hrun, filter_eq_self.mpr fun e he => ?_, hlen]
    have := hin e he
    simp
    omega
  · rintro n ⟨calls, start, -, rfl⟩
    have hin : ∀ e ∈ (after rate calls).emissionsIn start span,
        start ≤ e.instant ∧ e.instant.val < start.val + span := by
      intro e he
      simpa using (mem_filter.mp he).2
    have hgap := ((paced_after rate calls).apart hpos).filter fun e =>
      start ≤ e.instant ∧ e.instant.val < start.val + span
    rw [← emissionsIn] at hgap
    cases hes : (after rate calls).emissionsIn start span with
    | nil => exact zero_le _
    | cons e es =>
      rw [hes] at hin hgap
      have hreach := gaps_le_head hgap fun e' he' => (hin e' he').1
      have hend := (hin e mem_cons_self).2
      exact succ_le_succ ((Nat.le_div_iff_mul_le hpos).mpr (by omega))

/-- A rate of three allows four emissions in a second. -/
theorem emissions_in_second :
    IsGreatest {n | ∃ calls start, calls.Pairwise (·.now ≤ ·.now) ∧
      n = ((after 3 calls).emissionsIn start 1000000000).length} 4 :=
  emissions_in_span (by decide) (by decide) (by decide)

/-! ## The freshest revision -/

/-- What is promised to those who are told. -/
structure Fresh (run : CoalescerRun) : Prop where
  newest : ∀ e ∈ run.emissions, e.observed = some e.revision
  distinct : run.emissions.IsChain (·.revision ≠ ·.revision)
  waits : ∀ revision, run.observed = some revision →
    run.emissions.head?.map (·.revision) ≠ some revision →
      run.coalescer.pending.isSome ∧ ∃ deadline, run.coalescer.nextDeadline = some deadline ∧
        ∀ early : List Instant, (∀ now ∈ early, now < deadline) → ∀ now, deadline ≤ now →
          ((early.foldl (fun c now => (c.poll now).2) run.coalescer).poll now).1 = some revision

/-- The revision emitted last is not observed while another one waits, and no revision has to wait
for an instant that the clock does not reach. -/
def CoalescerRun.Accepts (run : CoalescerRun) : CoalescerCall → Prop
  | .observe revision _ => ∀ e ∈ run.coalescer.lastEmitted,
      if e.revision = revision then run.coalescer.pending = none
      else e.instant.val + run.coalescer.minInterval < instantLimit
  | .poll _ => True

/-- A revision waits, and another one was emitted last. -/
structure Due (c : SnapshotCoalescer) (e : EmittedRevision) (p : PendingRevision) : Prop where
  last : c.lastEmitted = some e
  pending : c.pending = some p
  ne : e.revision ≠ p.revision

/-- What waits is what was observed last. -/
inductive Waiting (c : SnapshotCoalescer) (observed : Option UInt64) : Prop
  | idle (hlast : c.lastEmitted = none) (hpending : c.pending = none) (h : observed = none)
  | told {e} (hlast : c.lastEmitted = some e) (hpending : c.pending = none)
      (h : observed = some e.revision)
  | held {e p} (hdue : Due c e p) (h : observed = some p.revision)
      (hwait : p.observedAt.val - e.instant.val < c.minInterval)
      (hlimit : e.instant.val + c.minInterval < instantLimit)

section Due

variable {c : SnapshotCoalescer} {e : EmittedRevision} {p : PendingRevision} (h : Due c e p)

include h

theorem Due.poll (now : Instant) : c.poll now = if c.minInterval ≤ now.val - e.instant.val then
      (some p.revision, ⟨c.minInterval, some ⟨p.revision, now⟩, none⟩) else (none, c) := by
  simp only [SnapshotCoalescer.poll, h.pending, mayEmitAt, h.last, lastEmittedRevision,
    map_some, some.injEq, h.ne, if_false, commitEmission]
  split_ifs <;> simp_all

/-- A revision that waits has a deadline. Nothing is emitted by polls before it, and it is emitted
by the first poll from then on. -/
theorem Due.deadline (hwait : p.observedAt.val - e.instant.val < c.minInterval)
    (hlim : e.instant.val + c.minInterval < instantLimit) :
    ∃ deadline, c.nextDeadline = some deadline ∧
      ∀ early : List Instant, (∀ now ∈ early, now < deadline) → ∀ now, deadline ≤ now →
        ((early.foldl (fun c now => (c.poll now).2) c).poll now).1 = some p.revision := by
  have hmax : max p.observedAt ⟨e.instant.val + c.minInterval, hlim⟩ =
      ⟨e.instant.val + c.minInterval, hlim⟩ :=
    max_eq_right (Fin.le_def.mpr (by simp only; omega))
  refine ⟨⟨e.instant.val + c.minInterval, hlim⟩, ?_, fun early hearly now hnow => ?_⟩
  · simp only [nextDeadline, h.pending, h.last, Instant.checkedAdd, dif_pos hlim, hmax, map_some]
  · have hsm : early.foldl (fun c now => (c.poll now).2) c = c := by
      induction early with
      | nil => rfl
      | cons now early ih =>
        have hlt := Fin.lt_def.mp (hearly now (mem_cons_self ..))
        simp only at hlt
        rw [foldl_cons, h.poll, if_neg (by omega)]
        exact ih fun now' hmem => hearly now' (mem_cons_of_mem _ hmem)
    have hle := Fin.le_def.mp hnow
    simp only at hle
    rw [hsm, h.poll, if_pos (by omega)]

/-- If the interval ends where the clock does not reach, the deadline is wrong. -/
theorem Due.unreached (hlim : ¬ e.instant.val + c.minInterval < instantLimit) (now : Instant) :
    c.nextDeadline = some p.observedAt ∧ (c.poll now).1 = none := by
  constructor
  · simp only [nextDeadline, h.pending, h.last, Instant.checkedAdd, dif_neg hlim, map_some]
  · have := now.isLt
    rw [h.poll, if_neg (by omega)]

end Due

/-- Each emission was of the newest revision, and the newest one waits if it was not emitted. -/
structure FreshKept (run : CoalescerRun) : Prop where
  newest : ∀ e ∈ run.emissions, e.observed = some e.revision
  waiting : Waiting run.coalescer run.observed

theorem FreshKept.step_observe_new (h : FreshKept run) (hc : run.Accepts (.observe revision now))
    (hnew : run.coalescer.lastEmittedRevision ≠ some revision) :
    FreshKept (run.step (.observe revision now)) := by
  by_cases hmay : run.coalescer.mayEmitAt now
  · rw [step_observe_emits hnew hmay]
    exact ⟨forall_mem_cons.mpr ⟨rfl, h.newest⟩, .told rfl rfl rfl⟩
  · cases hl : run.coalescer.lastEmitted with
    | none => exact absurd (by rw [mayEmitAt, hl]) hmay
    | some e =>
      have hne : e.revision ≠ revision := by
        rintro rfl
        exact hnew (by rw [lastEmittedRevision, hl]; rfl)
      have hlim := hc e hl
      rw [if_neg hne] at hlim
      rw [step, observe, if_neg hnew, if_neg hmay]
      refine ⟨h.newest, .held ⟨hl, rfl, hne⟩ rfl ?_ hlim⟩
      rw [mayEmitAt, hl] at hmay
      exact not_le.mp fun hle => hmay (decide_eq_true hle)

theorem FreshKept.step (h : FreshKept run) (hc : run.Accepts call) :
    FreshKept (run.step call) := by
  cases call with
  | observe revision now =>
    by_cases hnew : run.coalescer.lastEmittedRevision = some revision
    · rw [CoalescerRun.step, observe, if_pos hnew]
      obtain ⟨e, hl, rfl⟩ := map_eq_some_iff.mp hnew
      have hpend := hc e hl
      rw [if_pos rfl] at hpend
      rw [pendingRevision, hpend, map_none, if_neg nofun]
      exact ⟨h.newest, .told hl hpend rfl⟩
    · exact h.step_observe_new hc hnew
  | poll now =>
    rw [CoalescerRun.step]
    cases h.waiting with
    | idle hl hpend hn =>
      rw [poll, hpend]
      exact h
    | told hl hpend heq =>
      rw [poll, hpend]
      exact h
    | held hdue heq hwait hlim =>
      rw [hdue.poll]
      split_ifs
      · exact ⟨forall_mem_cons.mpr ⟨heq, h.newest⟩, .told rfl rfl heq⟩
      · exact h

theorem FreshKept.fresh (h : FreshKept run) (hpaced : Paced rate run) : Fresh run := by
  refine ⟨h.newest, hpaced.distinct, fun revision hobs hl => ?_⟩
  cases h.waiting with
  | idle _ _ hn => cases hn.symm.trans hobs
  | told he _ htold =>
    refine absurd ?_ hl
    rw [← hobs, htold, ← hpaced.lastRevision, lastEmittedRevision, he]
    rfl
  | held hdue heq hwait hlim =>
    cases heq.symm.trans hobs
    exact ⟨by rw [hdue.pending]; rfl, hdue.deadline hwait hlim⟩

/-- Every call is accepted where it is made. -/
def Careful (rate : ℕ) (calls : List CoalescerCall) : Prop :=
  ∀ before call, before ++ [call] <+: calls → (after rate before).Accepts call

/-- Up to each call the promise is kept, and a poll after it keeps it. -/
def KeepsFreshest (rate : ℕ) (calls : List CoalescerCall) : Prop :=
  ∀ before, before <+: calls → Fresh (after rate before) ∧
    ∀ now, (∀ call ∈ before, call.now ≤ now) → Fresh (after rate (before ++ [.poll now]))

theorem Careful.freshKept (h : Careful rate calls) : FreshKept (after rate calls) := by
  induction calls using reverseRecOn with
  | nil => exact ⟨nofun, .idle rfl rfl rfl⟩
  | append_singleton calls call ih =>
    obtain ⟨hcs, hc⟩ := forall_prefix_concat.mp h
    rw [after_concat]
    exact (ih hcs).step hc

theorem Careful.keepsFreshest (h : Careful rate calls) : KeepsFreshest rate calls := by
  intro before hbef
  have hk : FreshKept (after rate before) :=
    Careful.freshKept fun l c hc => h l c (hc.trans hbef)
  refine ⟨hk.fresh (paced_after rate before), fun now _ => ?_⟩
  rw [after_concat]
  have hacc : (after rate before).Accepts (.poll now) := trivial
  exact (hk.step hacc).fresh ((paced_after rate before).step _)

/-- A call that is not accepted breaks the promise at once or with a poll at the end of time. -/
theorem FreshKept.accepts (h : FreshKept run) (hpaced : Paced rate run)
    (hst : Fresh (run.step call))
    (hpl : Fresh ((run.step call).step (.poll ⟨instantLimit - 1, by decide⟩))) :
    run.Accepts call := by
  cases call with
  | poll => trivial
  | observe revision now =>
    rintro e (he : run.coalescer.lastEmitted = some e)
    have hrevision : run.coalescer.lastEmittedRevision = some e.revision := by
      rw [lastEmittedRevision, he]
      rfl
    split_ifs with hsm
    · by_contra hpend
      cases h.waiting with
      | idle _ hn _ | told _ hn _ => exact hpend hn
      | held hdue heq hwait hlim =>
        cases hdue.last.symm.trans he
        -- the observation leaves the older revision where it is, and the poll emits it
        rw [CoalescerRun.step, observe, ← hsm, if_pos hrevision, pendingRevision, hdue.pending,
          map_some, if_neg fun h => hdue.ne (some.inj h).symm, CoalescerRun.step,
          answered, answered, hdue.poll, if_pos (by simp only; omega)] at hpl
        exact hdue.ne (some.inj (hpl.newest _ (mem_cons_self ..)))
    · by_contra hlim
      have hne : run.coalescer.lastEmittedRevision ≠ some revision := by
        rw [hrevision]
        exact fun h => hsm (some.inj h)
      have hmay : ¬ run.coalescer.mayEmitAt now = true := fun hmay => by
        have := mayEmitAt_iff.mp hmay e he
        omega
      rw [CoalescerRun.step, observe, if_neg hne, if_neg hmay, answered] at hst
      obtain ⟨-, deadline, hdeadline, hemits⟩ :=
        hst.waits revision rfl (hpaced.lastRevision ▸ hne)
      have hdue : Due { run.coalescer with pending := some ⟨revision, now⟩ } e ⟨revision, now⟩ :=
        ⟨he, rfl, hsm⟩
      obtain ⟨hnow, hn⟩ := hdue.unreached hlim now
      have hemit := hemits [] nofun now (some.inj (hdeadline.symm.trans hnow)).le
      cases hn.symm.trans hemit

theorem KeepsFreshest.careful (h : KeepsFreshest rate calls) : Careful rate calls := by
  induction calls using reverseRecOn with
  | nil =>
    intro before call hc
    simp at hc
  | append_singleton calls call ih =>
    have hold := ih fun before hbef => h before (hbef.trans (prefix_append ..))
    refine forall_prefix_concat.mpr ⟨hold, ?_⟩
    have hfr := h _ prefix_rfl
    have hend := hfr.2 ⟨instantLimit - 1, by decide⟩ fun c _ =>
      Fin.le_def.mpr (le_sub_one_of_lt c.now.isLt)
    rw [after_concat] at hfr hend
    rw [after_concat] at hend
    exact hold.freshKept.accepts (paced_after rate _) hfr.1 hend

theorem keeps_freshest_iff (rate : ℕ) (calls : List CoalescerCall) :
    KeepsFreshest rate calls ↔ Careful rate calls :=
  ⟨KeepsFreshest.careful, Careful.keepsFreshest⟩

/-- After the revisions 1, 2 and 1 again a poll emits 2, which was not observed last. -/
theorem older_revision_emitted :
    (after 1 [.observe 1 0, .observe 2 1, .observe 1 2, .poll 1000000000]).emissions.map
        (fun e => (e.revision, e.observed)) = [(2, some 1), (1, some 1)] ∧
      ¬KeepsFreshest 1 [.observe 1 0, .observe 2 1, .observe 1 2] := by
  refine ⟨by decide, fun hkeeps => ?_⟩
  have hfresh := (hkeeps _ prefix_rfl).2 1000000000 (by decide)
  exact absurd hfresh.newest (by decide)

end Rmux
