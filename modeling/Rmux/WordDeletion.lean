import Mathlib.Data.List.Infix
import Mathlib.Logic.Relation

/-!
# Deleting words from a text

Words are deleted from a text, one occurrence after the other, until none is left (`Remains`). Where
a word begins with a letter that is nowhere else in it, and all words are equally long (`Marked`),
two occurrences never overlap, so only one text can remain (`Remains.unique`). A text put together
from two parts can hold a word across the seam (`Straddles`, `free_append`).

A text that comes in pieces can be sent as it comes, without its words and without the longest end
that may begin a word (`Sends`). What is sent holds no word exactly if no word lies across what was
once certain and what remains of the rest (`Seamless`, `Sends.free_iff`).
-/

namespace WordDeletion

open Relation List

variable {α : Type*} {words : List (List α)} {e : α} {x y z : List α}

/-- One occurrence of a word is deleted. -/
def Deletes (words : List (List α)) (x y : List α) : Prop :=
  ∃ before word after, word ∈ words ∧ x = before ++ word ++ after ∧ y = before ++ after

/-- Words are deleted, one after the other. -/
def Reduces (words : List (List α)) : List α → List α → Prop := ReflTransGen (Deletes words)

/-- No word is left. -/
def Free (words : List (List α)) (x : List α) : Prop := ∀ word ∈ words, ¬ word <:+: x

/-- What remains of a text when words are deleted until none is left. -/
def Remains (words : List (List α)) (x y : List α) : Prop := Reduces words x y ∧ Free words y

/-- A word lies across the seam of two texts. -/
def Straddles (words : List (List α)) (x y : List α) : Prop :=
  ∃ p q, p ≠ [] ∧ q ≠ [] ∧ p ++ q ∈ words ∧ p <:+ x ∧ q <+: y

/-- Every word begins with `e`, which is nowhere else in it, and the words are equally long. -/
structure Marked (words : List (List α)) (e : α) : Prop where
  head : ∀ word ∈ words, ∃ rest, word = e :: rest ∧ e ∉ rest
  length : ∀ word ∈ words, ∀ word' ∈ words, word.length = word'.length

/-- A word begins with `x` and goes on. -/
def Starts (words : List (List α)) (x : List α) : Prop := ∃ word ∈ words, x <+: word ∧ x ≠ word

/-- The longest end of a text that begins a word. -/
structure LongestBeginning (words : List (List α)) (x held : List α) : Prop where
  suffix : held <:+ x
  starts : Starts words held
  longest : ∀ other, other <:+ x → Starts words other → other.length ≤ held.length

/-- A text that comes in pieces is sent as it comes : of each piece, together with what was held
back before it, what remains but for the longest end that begins a word. -/
inductive Sends (words : List (List α)) : List (List α) → List α → List α → Prop
  | nil : Sends words [] [] []
  | snoc {pieces sent held piece out held'} : Sends words pieces sent held →
      Remains words (held ++ piece) (out ++ held') →
      LongestBeginning words (out ++ held') held' →
      Sends words (pieces ++ [piece]) (sent ++ out) held'

/-- After any of the pieces, take what remains of the text so far. No word lies across all of it but
the longest end that begins a word, and what remains of that end and any number of the pieces that
follow. -/
def Seamless (words : List (List α)) (pieces : List (List α)) : Prop :=
  ∀ before after, before ++ after <+: pieces → ∀ certain held rest,
    Remains words before.flatten (certain ++ held) →
    LongestBeginning words (certain ++ held) held →
    Remains words (held ++ after.flatten) rest → ¬ Straddles words certain rest

/-! ## Reducing parts of a text -/

theorem Deletes.append_left (h : Deletes words x y) (z : List α) :
    Deletes words (z ++ x) (z ++ y) := by
  obtain ⟨before, word, after, hw, rfl, rfl⟩ := h
  exact ⟨z ++ before, word, after, hw, by simp, by simp⟩

theorem Deletes.append_right (h : Deletes words x y) (z : List α) :
    Deletes words (x ++ z) (y ++ z) := by
  obtain ⟨before, word, after, hw, rfl, rfl⟩ := h
  exact ⟨before, word, after ++ z, hw, by simp, by simp⟩

theorem Reduces.append_left (h : Reduces words x y) (z : List α) :
    Reduces words (z ++ x) (z ++ y) :=
  ReflTransGen.lift (r := Deletes words) (z ++ ·) (fun _ _ hdelete => hdelete.append_left z) x y h

theorem Reduces.append_right (h : Reduces words x y) (z : List α) :
    Reduces words (x ++ z) (y ++ z) :=
  ReflTransGen.lift (r := Deletes words) (· ++ z) (fun _ _ hdelete => hdelete.append_right z) x y h

theorem Free.of_infix (h : Free words y) (hxy : x <:+: y) : Free words x :=
  fun word hw hin => h word hw (hin.trans hxy)

theorem Free.of_length (h : ∀ word ∈ words, x.length < word.length) : Free words x :=
  fun word hw hin => absurd hin.length_le (not_le.mpr (h word hw))

/-! ## Seams -/

/-- A stretch of two texts is in one of them, or across the seam. -/
theorem infix_append_cases {word : List α} (h : word <:+: x ++ y) :
    word <:+: x ∨ word <:+: y ∨ ∃ p q, p ≠ [] ∧ q ≠ [] ∧ word = p ++ q ∧ p <:+ x ∧ q <+: y := by
  obtain ⟨before, after, h⟩ := h
  rw [append_assoc, append_eq_append_iff] at h
  rcases h with ⟨r, rfl, h⟩ | ⟨r, rfl, h⟩
  · rcases append_eq_append_iff.mp h with ⟨r', rfl, h⟩ | ⟨r', hw, rfl⟩
    · exact .inl ⟨before, r', by simp⟩
    · rcases eq_or_ne r [] with rfl | hr
      · exact .inr (.inl ⟨[], after, by simp [hw]⟩)
      rcases eq_or_ne r' [] with rfl | hr'
      · refine .inl ⟨before, [], ?_⟩
        simp [hw]
      · exact .inr (.inr ⟨r, r', hr, hr', hw, suffix_append _ _, prefix_append _ _⟩)
  · exact .inr (.inl ⟨r, after, by rw [append_assoc, ← h]⟩)

theorem free_append :
    Free words (x ++ y) ↔ Free words x ∧ Free words y ∧ ¬ Straddles words x y := by
  constructor
  · intro h
    refine ⟨h.of_infix (prefix_append _ _).isInfix, h.of_infix (suffix_append _ _).isInfix, ?_⟩
    rintro ⟨p, q, -, -, hw, ⟨before, rfl⟩, ⟨after, rfl⟩⟩
    exact h (p ++ q) hw ⟨before, after, by simp⟩
  · rintro ⟨hx, hy, hseam⟩ word hw hin
    rcases infix_append_cases hin with h | h | ⟨p, q, hp, hq, rfl, hpx, hqy⟩
    · exact hx word hw h
    · exact hy word hw h
    · exact hseam ⟨p, q, hp, hq, hw, hpx, hqy⟩

/-- The part of a word behind a seam does not hold the letter it begins with. -/
theorem Marked.not_mem_right (hm : Marked words e) {p q : List α} (hp : p ≠ [])
    (hw : p ++ q ∈ words) : e ∉ q := by
  obtain ⟨r, hr, hnot⟩ := hm.head _ hw
  cases p with
  | nil => exact absurd rfl hp
  | cons first p =>
    rw [cons_append, cons.injEq] at hr
    rw [← hr.2] at hnot
    exact fun hmem => hnot (mem_append_right _ hmem)

/-- What begins a word completes none. -/
theorem Marked.not_straddles (hm : Marked words e) (hz : z = [] ∨ Starts words z) :
    ¬ Straddles words x z := by
  rintro ⟨p, q, hp, hq, hw, -, hqz⟩
  rcases hz with rfl | ⟨word, hword, hstarts, -⟩
  · exact hq (prefix_nil.mp hqz)
  · obtain ⟨r, rfl, -⟩ := hm.head word hword
    cases q with
    | nil => exact hq rfl
    | cons first q =>
      obtain ⟨rfl, -⟩ := cons_prefix_cons.mp (hqz.trans hstarts)
      exact hm.not_mem_right hp hw mem_cons_self

/-! ## Only one text can remain -/

/-- An occurrence that begins at or before another is the same one, or ends before it. -/
theorem Marked.occurrences (hm : Marked words e) {a b c d w v : List α} (hw : w ∈ words)
    (hv : v ∈ words) (h : a ++ w ++ b = c ++ v ++ d) (hle : a.length ≤ c.length) :
    a = c ∧ b = d ∨ ∃ m, c = a ++ w ++ m ∧ b = m ++ v ++ d := by
  rw [append_assoc, append_assoc] at h
  obtain ⟨m, rfl⟩ : a <+: c := prefix_of_prefix_length_le ⟨_, h⟩ (prefix_append _ _) hle
  rw [append_assoc, append_cancel_left_eq] at h
  rcases append_eq_append_iff.mp h with ⟨m', rfl, hb⟩ | ⟨m', hw', hv'⟩
  · exact .inr ⟨m', by simp, by rw [hb, append_assoc]⟩
  · -- the second occurrence begins inside the first : at its first letter
    obtain ⟨r, hr, hnot⟩ := hm.head v hv
    rcases m' with _ | ⟨first, m'⟩
    · rw [append_nil] at hw'
      exact .inr ⟨[], by simp [hw'], by rw [← nil_append b, ← hv']; simp⟩
    · have hfst : first = e := by
        rw [hr] at hv'
        exact (cons.inj hv').1.symm
      rcases m with _ | ⟨head, m⟩
      · rw [nil_append] at hw'
        rw [← hw'] at hv'
        obtain ⟨rfl, rfl⟩ := append_inj hv' (hm.length v hv w hw)
        exact .inl ⟨by simp, rfl⟩
      · obtain ⟨r', hr', hnot'⟩ := hm.head w hw
        rw [hr', cons_append, cons.injEq] at hw'
        rw [hw'.2, hfst] at hnot'
        exact absurd (mem_append_right _ mem_cons_self) hnot'

/-- Two deletions can be made in either order. -/
theorem Marked.diamond (hm : Marked words e) (hxy : Deletes words x y)
    (hxz : Deletes words x z) :
    ∃ d, ReflGen (Deletes words) y d ∧ ReflTransGen (Deletes words) z d := by
  obtain ⟨a, w, b, hw, rfl, rfl⟩ := hxy
  obtain ⟨c, v, d, hv, heq, rfl⟩ := hxz
  rcases Nat.le_total a.length c.length with hle | hle
  · rcases hm.occurrences hw hv heq hle with ⟨rfl, rfl⟩ | ⟨m, rfl, rfl⟩
    · exact ⟨_, .refl, .refl⟩
    · exact ⟨a ++ m ++ d, .single ⟨a ++ m, v, d, hv, by simp, rfl⟩,
        .single ⟨a, w, m ++ d, hw, by simp, by simp⟩⟩
  · rcases hm.occurrences hv hw heq.symm hle with ⟨rfl, rfl⟩ | ⟨m, rfl, rfl⟩
    · exact ⟨_, .refl, .refl⟩
    · exact ⟨c ++ m ++ b, .single ⟨c, v, m ++ b, hv, by simp, by simp⟩,
        .single ⟨c ++ m, w, b, hw, by simp, rfl⟩⟩

theorem Free.eq_of_reduces (hfree : Free words x) (h : Reduces words x y) : y = x := by
  rcases h.cases_head with rfl | ⟨z, ⟨before, word, after, hw, rfl, -⟩, -⟩
  · rfl
  · exact absurd ⟨before, after, rfl⟩ (hfree word hw)

theorem Remains.unique (hm : Marked words e) (hy : Remains words x y)
    (hz : Remains words x z) : y = z := by
  obtain ⟨d, hyd, hzd⟩ := church_rosser (fun _ _ _ => hm.diamond) hy.1 hz.1
  rw [← hy.2.eq_of_reduces hyd, ← hz.2.eq_of_reduces hzd]

/-! ## Texts in pieces -/

theorem Starts.of_prefix (h : Starts words y) (hxy : x <+: y) : Starts words x := by
  obtain ⟨word, hw, hyw, hne⟩ := h
  refine ⟨word, hw, hxy.trans hyw, ?_⟩
  rintro rfl
  exact hne (hyw.eq_of_length_le hxy.length_le)

/-- Nothing but its head is the letter that a word begins with. -/
theorem Starts.not_mem_right (hm : Marked words e) (h : Starts words (x ++ y)) (hx : x ≠ []) :
    e ∉ y := by
  obtain ⟨word, hw, ⟨r, rfl⟩, -⟩ := h
  rw [append_assoc] at hw
  intro hmem
  exact hm.not_mem_right hx hw (mem_append_left r hmem)

theorem Starts.head_mem (hm : Marked words e) (h : Starts words x) (hx : x ≠ []) : e ∈ x := by
  obtain ⟨word, hw, hxw, -⟩ := h
  obtain ⟨r, rfl, -⟩ := hm.head word hw
  cases x with
  | nil => exact absurd rfl hx
  | cons first x =>
    obtain ⟨rfl, -⟩ := cons_prefix_cons.mp hxw
    exact mem_cons_self

theorem Starts.free (hm : Marked words e) (h : Starts words x) : Free words x := by
  obtain ⟨word, hw, hxw, hne⟩ := h
  refine Free.of_length fun word' hw' => ?_
  rw [hm.length word' hw' word hw]
  exact lt_of_le_of_ne hxw.length_le fun heq => hne (hxw.eq_of_length heq)

theorem Marked.free_nil (hm : Marked words e) : Free words [] := by
  intro word hw hin
  obtain ⟨r, rfl, -⟩ := hm.head word hw
  exact absurd (eq_nil_of_infix_nil hin) (cons_ne_nil e r)

/-- What does not hold the letter that words begin with can stand before a text. -/
theorem Marked.free_append_of_not_mem (hm : Marked words e) (hx : e ∉ x) (hy : Free words y) :
    Free words (x ++ y) := by
  refine free_append.mpr ⟨fun word hw hin => ?_, hy, ?_⟩
  · obtain ⟨r, rfl, -⟩ := hm.head word hw
    exact hx (hin.subset mem_cons_self)
  · rintro ⟨p, q, hp, hq, hw, hpx, -⟩
    have hstarts : Starts words p := ⟨p ++ q, hw, prefix_append p q, by simpa using hq.symm⟩
    exact hx (hpx.subset (hstarts.head_mem hm hp))

section Pieces

variable {pieces before after : List (List α)} {sent held : List α}

theorem Sends.starts (h : Sends words pieces sent held) : held = [] ∨ Starts words held := by
  cases h with
  | nil => exact .inl rfl
  | snoc _ _ hlongest => exact .inr hlongest.starts

/-- What is held back does not matter. -/
theorem Sends.free_append_iff (hm : Marked words e) (h : Sends words pieces sent held) :
    Free words (sent ++ held) ↔ Free words sent := by
  have hheld : Free words held := by
    rcases h.starts with rfl | hstarts
    · exact hm.free_nil
    · exact hstarts.free hm
  rw [free_append]
  exact ⟨fun hfree => hfree.1, fun hfree => ⟨hfree, hheld, hm.not_straddles h.starts⟩⟩

/-- What was sent before some of the pieces, and what was sent because of them. -/
structure Resumes (words before after : List (List α)) (sent held sent' held' out : List α) :
    Prop where
  sends : Sends words before sent held
  sent_eq : sent' = sent ++ out
  reduces : Reduces words (held ++ after.flatten) (out ++ held')

theorem Resumes.snoc {sent' held' out piece more next : List α}
    (h : Resumes words before after sent held sent' held' out)
    (hremains : Remains words (held' ++ piece) (more ++ next)) :
    Resumes words before (after ++ [piece]) sent held (sent' ++ more) next (out ++ more) := by
  refine ⟨h.sends, by rw [h.sent_eq, append_assoc], ?_⟩
  have hfirst := h.reduces.append_right piece
  have hsecond := hremains.1.append_left out
  rw [append_assoc, append_assoc] at hfirst
  rw [flatten_concat, append_assoc]
  exact hfirst.trans hsecond

theorem Sends.resumes (h : Sends words (before ++ after) sent held) :
    ∃ sent₀ held₀ out, Resumes words before after sent₀ held₀ sent held out := by
  induction after using reverseRecOn generalizing sent held with
  | nil =>
    rw [append_nil] at h
    exact ⟨sent, held, [], h, (append_nil sent).symm, by simpa using .refl⟩
  | append_singleton after piece ih =>
    rw [← append_assoc] at h
    generalize hpieces : before ++ after ++ [piece] = pieces at h
    cases h with
    | nil => simp at hpieces
    | snoc hsends hremains _ =>
      obtain ⟨rfl, hpiece⟩ := append_inj' hpieces rfl
      obtain rfl := singleton_inj.mp hpiece
      obtain ⟨sent₀, held₀, out, hresumes⟩ := ih hsends
      exact ⟨sent₀, held₀, _, hresumes.snoc hremains⟩

theorem Sends.reduces (h : Sends words pieces sent held) :
    Reduces words pieces.flatten (sent ++ held) := by
  induction h with
  | nil => exact .refl
  | @snoc pieces sent held piece out held' _ hremains _ ih =>
    have hlast := hremains.1.append_left sent
    rw [← append_assoc, ← append_assoc] at hlast
    rw [flatten_concat]
    exact (ih.append_right piece).trans hlast

theorem Sends.seamless (hm : Marked words e) (h : Sends words pieces sent held)
    (hfree : Free words sent) : Seamless words pieces := by
  rintro before after ⟨more, rfl⟩ certain end' rest hremains hlongest hrest
  obtain ⟨sent₁, held₁, out, h₁, rfl, -⟩ := h.resumes
  replace hfree := hfree.of_infix (prefix_append sent₁ out).isInfix
  obtain ⟨sent₀, held₀, out₀, h₀, rfl, hreduces⟩ := h₁.resumes
  have hfree₀ := hfree.of_infix (prefix_append sent₀ out₀).isInfix
  have heq : certain ++ end' = sent₀ ++ held₀ :=
    hremains.unique hm ⟨h₀.reduces, (h₀.free_append_iff hm).mpr hfree₀⟩
  -- the longest end goes back to what was held back then, or further
  obtain ⟨x, rfl⟩ : held₀ <:+ end' := by
    refine suffix_of_suffix_length_le (heq ▸ suffix_append _ _) hlongest.suffix ?_
    rcases h₀.starts with rfl | hstarts
    · exact Nat.zero_le _
    · exact hlongest.longest held₀ (heq ▸ suffix_append _ _) hstarts
  obtain rfl : certain ++ x = sent₀ := append_cancel_right ((append_assoc _ _ _).trans heq)
  have hwhole : Free words (certain ++ (x ++ (out₀ ++ held₁))) := by
    have := (h₁.free_append_iff hm).mpr hfree
    simpa only [append_assoc] using this
  obtain ⟨-, hright, hseam⟩ := free_append.mp hwhole
  have hall : Reduces words (x ++ held₀ ++ after.flatten) (x ++ (out₀ ++ held₁)) := by
    rw [append_assoc]
    exact hreduces.append_left x
  rwa [hrest.unique hm ⟨hall, hright⟩]

/-- If what was sent ends with the beginning of a word, then nothing of it was sent because of the
last pieces but a part without its head, and before them the longest end was held back. -/
theorem Sends.exists_resumes (hm : Marked words e) (h : Sends words pieces sent held) {p : List α}
    (hp : p ≠ []) (hstarts : Starts words p) (hsuffix : p <:+ sent) :
    ∃ before after sent₀ held₀ out front, pieces = before ++ after ∧
      Resumes words before after sent₀ held₀ sent held out ∧
      LongestBeginning words (sent₀ ++ held₀) held₀ ∧
      p = front ++ out ∧ front ≠ [] ∧ front <:+ sent₀ := by
  induction h generalizing p with
  | nil => exact absurd (suffix_nil.mp hsuffix) hp
  | @snoc pieces sent held piece out held' hsends hremains hlongest ih =>
    by_cases hout : p <:+ out
    · -- a longer end than was held back would hold the head of `p` inside
      have hlong : LongestBeginning words (sent ++ out ++ held') held' := by
        refine ⟨suffix_append _ _, hlongest.starts, fun other hother hstart => ?_⟩
        rw [append_assoc] at hother
        rcases suffix_or_suffix_of_suffix hother (suffix_append sent (out ++ held')) with
          hin | ⟨front, rfl⟩
        · exact hlongest.longest other hin hstart
        · rcases eq_or_ne front [] with rfl | hne
          · exact hlongest.longest _ suffix_rfl hstart
          · have hmem := mem_append_left held' (hout.subset (hstarts.head_mem hm hp))
            exact absurd hmem (hstart.not_mem_right hm hne)
      refine ⟨pieces ++ [piece], [], sent ++ out, held', [], p, (append_nil _).symm,
        ⟨hsends.snoc hremains hlongest, (append_nil _).symm, by simpa using .refl⟩, hlong,
        (append_nil p).symm, hp, hout.trans (suffix_append _ _)⟩
    · obtain ⟨front, rfl⟩ : out <:+ p :=
        (suffix_or_suffix_of_suffix hsuffix (suffix_append sent out)).resolve_left hout
      have hne : front ≠ [] := by
        rintro rfl
        exact hout suffix_rfl
      have hfront : front <:+ sent := by
        obtain ⟨x, hx⟩ := hsuffix
        exact ⟨x, append_cancel_right ((append_assoc _ _ _).trans hx)⟩
      obtain ⟨before, after, sent₀, held₀, out₀, front₀, rfl, hresumes, hlong, rfl, hne₀, hfront₀⟩
        := ih hne (hstarts.of_prefix (prefix_append _ _)) hfront
      exact ⟨before, after ++ [piece], sent₀, held₀, out₀ ++ out, front₀, append_assoc _ _ _,
        hresumes.snoc hremains, hlong, append_assoc _ _ _, hne₀, hfront₀⟩

theorem Sends.free (hm : Marked words e) (h : Sends words pieces sent held)
    (hseamless : Seamless words pieces) : Free words sent := by
  induction h with
  | nil => exact hm.free_nil
  | @snoc pieces sent held piece out held' hsends hremains _ ih =>
    have hsent : Free words sent := ih fun before after hbefore =>
      hseamless before after (hbefore.trans (prefix_append _ _))
    refine Free.of_infix (y := sent ++ (out ++ held')) (free_append.mpr ⟨hsent, hremains.2, ?_⟩)
      ⟨[], held', by simp⟩
    rintro ⟨p, q, hp, hq, hw, hpx, hqy⟩
    have hstarts : Starts words p := ⟨p ++ q, hw, prefix_append p q, by simpa using hq.symm⟩
    obtain ⟨before, after, sent₀, held₀, out₀, front, rfl, hresumes, hlong, rfl, hne, hfront⟩ :=
      hsends.exists_resumes hm hp hstarts hpx
    have hall := (hresumes.snoc hremains).reduces
    obtain ⟨h₀, rfl, -⟩ := hresumes
    have hcertain : Remains words before.flatten (sent₀ ++ held₀) :=
      ⟨h₀.reduces, (h₀.free_append_iff hm).mpr (hsent.of_infix (prefix_append _ _).isInfix)⟩
    have hrest : Remains words (held₀ ++ (after ++ [piece]).flatten) (out₀ ++ (out ++ held')) := by
      refine ⟨?_, hm.free_append_of_not_mem (hstarts.not_mem_right hm hne) hremains.2⟩
      rwa [append_assoc] at hall
    refine hseamless before (after ++ [piece]) (by simp) _ _ _ hcertain hlong hrest
      ⟨front, out₀ ++ q, hne, by simp [hq], by rwa [append_assoc] at hw, hfront, ?_⟩
    exact (prefix_append_right_inj out₀).mpr hqy

/-- What is sent of a text and what is held back hold no word exactly if no word lies across the
pieces. -/
theorem Sends.free_iff (hm : Marked words e) (h : Sends words pieces sent held) :
    Free words (sent ++ held) ↔ Seamless words pieces := by
  rw [h.free_append_iff hm]
  exact ⟨h.seamless hm, h.free hm⟩

end Pieces

end WordDeletion
