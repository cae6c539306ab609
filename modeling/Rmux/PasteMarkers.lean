import Rmux.InputControls
import Rmux.PasteEnvelope

/-!
# Paste markers on the way to an overlay

An overlay such as the command prompt takes a paste as text, so the markers of a paste are taken out
of its input. The input is pushed byte by byte, and a marker that a byte completes goes. A paste
that is never closed ends with its last bytes cut off as long as they may be the beginning of a
marker.
-/

namespace Rmux.Input

open List WordDeletion Relation

variable {x y z input out : List UInt8}

def pasteMarkers : List (List UInt8) := [bracketedPasteStart, bracketedPasteEnd]

def trailingBracketedPasteMarkerLen (input : List UInt8) : Option ℕ :=
  if bracketedPasteStart.isSuffixOf input then some bracketedPasteStart.length
  else if bracketedPasteEnd.isSuffixOf input then some bracketedPasteEnd.length
  else none

/-- The inner loop : markers at the end go until there is none. -/
def truncateMarkers : ℕ → List UInt8 → List UInt8
  | 0, out => out
  | fuel + 1, out =>
    match trailingBracketedPasteMarkerLen out with
    | some markerLen => truncateMarkers fuel (out.take (out.length - markerLen))
    | none => out

def stripBracketedPasteMarkers (input : List UInt8) : List UInt8 :=
  input.foldl (fun out byte => truncateMarkers (out.length + 1) (out ++ [byte])) []

/-- A byte is pushed, and a marker that it completes goes. -/
def pushByte (input : List UInt8) (byte : UInt8) : List UInt8 :=
  match trailingBracketedPasteMarkerLen (input ++ [byte]) with
  | some markerLen => (input ++ [byte]).take ((input ++ [byte]).length - markerLen)
  | none => input ++ [byte]

def stripBracketedPasteMarkersAfterAppend (input : List UInt8) (newInputAt : ℕ) : List UInt8 :=
  (input.drop (min newInputAt input.length)).foldl pushByte
    (input.take (min newInputAt input.length))

/-- The longest beginning of a marker at the end. -/
def longestPartialMarkerSuffix (input : List UInt8) : Option ℕ :=
  (pasteMarkers.flatMap fun marker => (range' 1 (marker.length - 1)).filter fun prefixLen =>
    (marker.take prefixLen).isSuffixOf input).max?

def truncatePartialMarkers : ℕ → List UInt8 → List UInt8
  | 0, body => body
  | fuel + 1, body =>
    match longestPartialMarkerSuffix body with
    | some suffixLen => truncatePartialMarkers fuel (body.take (body.length - suffixLen))
    | none => body

def neutralizeTimedOutBracketedPaste (input : List UInt8) : Option (List UInt8) :=
  if startsWith bracketedPasteStart input then
    let body := stripBracketedPasteMarkers input
    some (truncatePartialMarkers body.length body)
  else none

/-! ## One byte after the other -/

theorem take_eq_of_suffix {word : List UInt8} (h : word <:+ x) :
    x = x.take (x.length - word.length) ++ word := by
  obtain ⟨before, rfl⟩ := h
  rw [length_append, Nat.add_sub_cancel, take_left]

theorem trailing_eq_some {n : ℕ} (h : trailingBracketedPasteMarkerLen x = some n) :
    ∃ word ∈ pasteMarkers, x = x.take (x.length - n) ++ word := by
  unfold trailingBracketedPasteMarkerLen at h
  split_ifs at h with hst hend
  · obtain rfl := Option.some.inj h
    exact ⟨_, by simp [pasteMarkers], take_eq_of_suffix (isSuffixOf_iff_suffix.mp hst)⟩
  · obtain rfl := Option.some.inj h
    exact ⟨_, by simp [pasteMarkers], take_eq_of_suffix (isSuffixOf_iff_suffix.mp hend)⟩

theorem trailing_eq_none_iff :
    trailingBracketedPasteMarkerLen x = none ↔ ∀ word ∈ pasteMarkers, ¬ word <:+ x := by
  simp only [trailingBracketedPasteMarkerLen, pasteMarkers, mem_cons, not_mem_nil, or_false,
    forall_eq_or_imp, forall_eq, ← isSuffixOf_iff_suffix]
  split_ifs <;> simp_all

theorem trailing_eq_none (h : Free pasteMarkers x) :
    trailingBracketedPasteMarkerLen x = none :=
  trailing_eq_none_iff.mpr fun word hw hsuf => h word hw hsuf.isInfix

theorem pasteMarkers_length : ∀ word ∈ pasteMarkers, word.length = 6 := by decide

/-- What a push leaves comes from a deletion, or from none, and is free of markers again. -/
theorem pushByte_remains (h : Free pasteMarkers x) (byte : UInt8) :
    Remains pasteMarkers (x ++ [byte]) (pushByte x byte) := by
  unfold pushByte
  cases ht : trailingBracketedPasteMarkerLen (x ++ [byte]) with
  | some n =>
    obtain ⟨word, hw, heq⟩ := trailing_eq_some ht
    dsimp only
    refine ⟨.single ⟨_, word, [], hw, by rw [append_nil, ← heq], by rw [append_nil]⟩, ?_⟩
    -- the marker has the byte, so that what is left is a part of `x`
    generalize (x ++ [byte]).take _ = before at heq ⊢
    refine h.of_infix (prefix_of_prefix_length_le ⟨word, heq.symm⟩ (prefix_append x _) ?_).isInfix
    have hlen := congrArg length heq
    simp only [length_append, length_singleton, pasteMarkers_length word hw] at hlen
    omega
  | none =>
    refine ⟨.refl, free_append.mpr ⟨h, free_of_length_lt (by simp), ?_⟩⟩
    -- a marker across the seam would end with the byte
    rintro ⟨p, q, -, hq, hw, hp, hpre⟩
    obtain rfl : q = [byte] := hpre.eq_of_length_le (length_pos_iff.mpr hq)
    refine trailing_eq_none_iff.mp ht _ hw ?_
    obtain ⟨before, rfl⟩ := hp
    exact ⟨before, by simp⟩

/-- The inner loop runs at most once. -/
theorem truncateMarkers_push (h : Free pasteMarkers x) (byte : UInt8) :
    truncateMarkers (x.length + 1) (x ++ [byte]) = pushByte x byte := by
  have hfree := (pushByte_remains h byte).2
  unfold pushByte at hfree ⊢
  rw [truncateMarkers]
  cases ht : trailingBracketedPasteMarkerLen (x ++ [byte]) with
  | none => rfl
  | some n =>
    rw [ht] at hfree
    cases x with
    | nil => rfl
    | cons first rest =>
      change truncateMarkers (rest.length + 1) _ = _
      rw [truncateMarkers, trailing_eq_none hfree]

theorem foldl_pushByte_remains (l : List UInt8) (h : Free pasteMarkers x) :
    Remains pasteMarkers (x ++ l) (l.foldl pushByte x) := by
  induction l generalizing x with
  | nil => exact ⟨by rw [append_nil]; exact .refl, h⟩
  | cons byte l ih =>
    obtain ⟨hred, hfree⟩ := pushByte_remains h byte
    obtain ⟨hreds, hfrees⟩ := ih hfree
    have happ := hred.append_right l
    rw [append_assoc, singleton_append] at happ
    exact ⟨happ.trans hreds, hfrees⟩

theorem strip_eq_foldl (input : List UInt8) :
    stripBracketedPasteMarkers input = input.foldl pushByte [] := by
  have hfold (l : List UInt8) {x : List UInt8} (h : Free pasteMarkers x) :
      l.foldl (fun out byte => truncateMarkers (out.length + 1) (out ++ [byte])) x =
        l.foldl pushByte x := by
    induction l generalizing x with
    | nil => rfl
    | cons byte l ih =>
      rw [foldl_cons, foldl_cons, truncateMarkers_push h, ih (pushByte_remains h byte).2]
  exact hfold input marked_pasteMarkers.free_nil

theorem strip_remains_iff (rest : List UInt8) :
    Remains pasteMarkers input rest ↔ rest = stripBracketedPasteMarkers input := by
  have hstrip := foldl_pushByte_remains input marked_pasteMarkers.free_nil
  rw [nil_append, ← strip_eq_foldl] at hstrip
  constructor
  · exact fun hrest => hrest.unique marked_pasteMarkers hstrip
  · rintro rfl
    exact hstrip

theorem stripAfterAppend_eq (kept chunk : List UInt8) :
    stripBracketedPasteMarkersAfterAppend (kept ++ chunk) kept.length = chunk.foldl pushByte kept := by
  rw [stripBracketedPasteMarkersAfterAppend, length_append, Nat.min_eq_left (Nat.le_add_right _ _),
    drop_left, take_left]

/-! ## Beginnings of markers at the end -/

/-- A beginning of a marker, not empty and not the marker itself, is cut off the end. -/
def CutsBeginning (x y : List UInt8) : Prop :=
  ∃ marker ∈ pasteMarkers, ∃ n, 0 < n ∧ n < marker.length ∧ x = y ++ marker.take n

/-- The longest prefix that does not end with the beginning of a marker, as what is left when such
ends are cut off one after the other. -/
structure Trimmed (x y : List UInt8) : Prop where
  cuts : ReflTransGen CutsBeginning x y
  whole : ∀ z, ¬ CutsBeginning y z
  longest : ∀ z, z <+: x → (∀ z', ¬ CutsBeginning z z') → z <+: y

theorem longestPartial_eq_some {n : ℕ} (h : longestPartialMarkerSuffix x = some n) :
    CutsBeginning x (x.take (x.length - n)) := by
  obtain ⟨marker, hm, hn⟩ := mem_flatMap.mp (max?_mem h)
  obtain ⟨hr, hsuf⟩ := mem_filter.mp hn
  obtain ⟨hpos, hlt⟩ := mem_range'_1.mp hr
  have heq := take_eq_of_suffix (isSuffixOf_iff_suffix.mp hsuf)
  rw [length_take_of_le (by omega)] at heq
  exact ⟨marker, hm, n, hpos, by omega, heq⟩

theorem longestPartial_eq_none (h : longestPartialMarkerSuffix x = none) (y : List UInt8) :
    ¬ CutsBeginning x y := by
  rintro ⟨marker, hm, n, hpos, hlt, rfl⟩
  have hnone := flatMap_eq_nil_iff.mp (max?_eq_none_iff.mp h) marker hm
  refine filter_eq_nil_iff.mp hnone n (mem_range'_1.mpr ⟨hpos, by omega⟩) ?_
  exact isSuffixOf_iff_suffix.mpr (suffix_append _ _)

theorem CutsBeginning.length_lt (h : CutsBeginning x y) : y.length < x.length := by
  obtain ⟨marker, -, n, hpos, hlt, rfl⟩ := h
  rw [length_append, length_take]
  omega

/-- A prefix that does not end with the beginning of a marker survives a cut. -/
theorem CutsBeginning.prefix_of (h : CutsBeginning x y) (hz : z <+: x)
    (hz' : ∀ z', ¬ CutsBeginning z z') : z <+: y := by
  obtain ⟨marker, hm, n, hpos, hlt, rfl⟩ := h
  rcases prefix_or_prefix_of_prefix hz (prefix_append y _) with hle | ⟨rest, rfl⟩
  · exact hle
  · rcases rest.eq_nil_or_concat with rfl | ⟨_, _, rfl⟩
    · rw [append_nil]
    · -- the rest is itself the beginning of a marker
      rw [prefix_append_right_inj, prefix_iff_eq_take, take_take] at hz
      refine absurd ⟨marker, hm, _, ?_, ?_, by rw [hz]⟩ (hz' y)
      · simp [hpos]
      · exact (Nat.min_le_right _ _).trans_lt hlt

theorem Trimmed.of_cut (h : CutsBeginning x y) (hz : Trimmed y z) : Trimmed x z :=
  ⟨.head h hz.cuts, hz.whole, fun w hw hz' => hz.longest w (h.prefix_of hw hz') hz'⟩

theorem trimmed_truncate : ∀ {fuel : ℕ} {x : List UInt8}, x.length ≤ fuel →
    Trimmed x (truncatePartialMarkers fuel x)
  | 0, x, h => by
    obtain rfl := length_eq_zero_iff.mp (Nat.le_zero.mp h)
    exact ⟨.refl, fun y hy => absurd hy.length_lt (Nat.not_lt_zero _), fun _ hz _ => hz⟩
  | fuel + 1, x, h => by
    rw [truncatePartialMarkers]
    cases hl : longestPartialMarkerSuffix x with
    | none => exact ⟨.refl, longestPartial_eq_none hl, fun _ hz _ => hz⟩
    | some n =>
      have hcut := longestPartial_eq_some hl
      have hlt := hcut.length_lt
      exact .of_cut hcut (trimmed_truncate (by omega))

theorem Trimmed.unique (hy : Trimmed x y) (hz : Trimmed x z) : y = z := by
  have hpre {y : List UInt8} (h : ReflTransGen CutsBeginning x y) : y <+: x := by
    induction h with
    | refl => exact prefix_rfl
    | tail _ hcut ih =>
      obtain ⟨marker, -, n, -, -, rfl⟩ := hcut
      exact (prefix_append _ _).trans ih
  have hyz := hz.longest y (hpre hy.cuts) hy.whole
  exact hyz.eq_of_length_le (hy.longest z (hpre hz.cuts) hz.whole).length_le

/-- No marker of a paste is left in the input of an overlay, in whatever order markers are deleted and
in whatever chunks the input comes, and a paste that timed out does not end in the middle of one. -/
theorem overlay_input_is_free_of_markers (input : List UInt8) :
    (∀ rest, Remains pasteMarkers input rest ↔ rest = stripBracketedPasteMarkers input) ∧
      (∀ chunks : List (List UInt8), chunks.flatten = input → chunks.foldl (fun kept chunk =>
        stripBracketedPasteMarkersAfterAppend (kept ++ chunk) kept.length) [] =
          stripBracketedPasteMarkers input) ∧
      ∀ body, neutralizeTimedOutBracketedPaste input = some body ↔
        bracketedPasteStart <+: input ∧ Trimmed (stripBracketedPasteMarkers input) body := by
  refine ⟨strip_remains_iff, ?_, fun body => ?_⟩
  · rintro chunks rfl
    simp only [stripAfterAppend_eq, strip_eq_foldl, foldl_flatten]
  · rw [neutralizeTimedOutBracketedPaste, ← startsWith_iff]
    have ht := trimmed_truncate (le_refl (stripBracketedPasteMarkers input).length)
    by_cases hst : startsWith bracketedPasteStart input = true
    · rw [if_pos hst, Option.some.injEq]
      constructor
      · rintro rfl
        exact ⟨hst, ht⟩
      · exact fun h => ht.unique h.2
    · rw [if_neg hst]
      exact ⟨nofun, fun h => absurd h.1 hst⟩

end Rmux.Input
