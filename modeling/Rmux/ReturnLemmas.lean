import Mathlib.Data.List.Basic

/-!
# Computations that may stop

A computation in `Option` stands for one that may stop without a result. `Returns P` says that it
does not, and that its result meets `P` : it goes through a computation step by step
(`Returns.bind`), and through the loops over a list.
-/

namespace Option

open List

variable {α β σ : Type} {P : α → Prop} {Q : β → Prop} {x : Option α}

/-- The computation gives a result, and the result meets `P`. -/
def Returns (P : α → Prop) (x : Option α) : Prop := ∃ a, x = some a ∧ P a

theorem returns_some {a : α} (h : P a) : Returns P (some a) := ⟨a, rfl, h⟩

theorem Returns.mono {P' : α → Prop} (hx : Returns P x) (h : ∀ a, P a → P' a) : Returns P' x := by
  obtain ⟨a, rfl, ha⟩ := hx
  exact returns_some (h a ha)

variable {f : α → Option β}

theorem Returns.bind (hx : Returns P x) (hf : ∀ a, P a → Returns Q (f a)) :
    Returns Q (x >>= f) := by
  obtain ⟨a, rfl, ha⟩ := hx
  exact hf a ha

theorem Returns.done {f : α → β} (hx : Returns P x) :
    Returns (fun _ => True) (x >>= fun a => some (f a)) :=
  hx.bind fun _ _ => returns_some trivial

theorem Returns.map {f : α → β} (hx : Returns P x) (hf : ∀ a, P a → Q (f a)) :
    Returns Q (x.map f) := by
  obtain ⟨a, rfl, ha⟩ := hx
  exact returns_some (hf a ha)

theorem returns_ite {c : Prop} [Decidable c] {y : Option α} (hx : c → Returns P x)
    (hy : ¬c → Returns P y) : Returns P (if c then x else y) := by
  split
  · exact hx ‹_›
  · exact hy ‹_›

theorem returns_foldlM {f : σ → α → Option σ} {I : σ → Prop} :
    ∀ {l : List α} {s : σ}, (∀ s, ∀ a ∈ l, I s → Returns I (f s a)) → I s →
      Returns I (l.foldlM f s)
  | [], _, _, hs => returns_some hs
  | a :: _, s, hst, hs =>
    (hst s a List.mem_cons_self hs).bind fun _ hs' =>
      returns_foldlM (fun s b hb => hst s b (List.mem_cons_of_mem a hb)) hs'

theorem returns_mapM :
    ∀ {l : List α}, (∀ a ∈ l, Returns Q (f a)) → Returns (fun bs => ∀ b ∈ bs, Q b) (l.mapM f)
  | [], _ => returns_some (by simp)
  | a :: l, h => by
    obtain ⟨b, hb, hQ⟩ := h a mem_cons_self
    obtain ⟨bs, hbs, hQs⟩ := returns_mapM fun c hc => h c (mem_cons_of_mem a hc)
    refine ⟨b :: bs, by simp [hb, hbs], ?_⟩
    exact forall_mem_cons.mpr ⟨hQ, hQs⟩

theorem returns_findM? {p : α → Option Bool} :
    ∀ {l : List α}, (∀ a ∈ l, Returns (fun _ => True) (p a)) →
      Returns (fun r => ∀ a ∈ r, a ∈ l) (l.findM? p)
  | [], _ => returns_some (by simp)
  | a :: l, h => by
    obtain ⟨b, hb, -⟩ := h a mem_cons_self
    cases b with
    | true => exact ⟨some a, by simp [List.findM?, hb], by simp⟩
    | false =>
      obtain ⟨r, hr, hmem⟩ := returns_findM? fun c hc => h c (mem_cons_of_mem a hc)
      exact ⟨r, by simp [List.findM?, hb, hr], fun c hc => mem_cons_of_mem a (hmem c hc)⟩

end Option
