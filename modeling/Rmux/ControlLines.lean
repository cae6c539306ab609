import Rmux.ControlOutput

/-!
# Reading output lines back

An output line ends with its only line feed, and undoing the escapes of what follows its header
gives the bytes of the pane (`output_lines_lossless`). Whatever the bytes are, each of them stands
in the payload as it is or as an escape (`Escaped`).
-/

namespace Rmux

open List

/-! ## Payloads -/

/-- Every byte as it is, control bytes and the backslash apart, or escaped. -/
inductive Escaped : List UInt8 → List UInt8 → Prop
  | nil : Escaped [] []
  | keep {byte : UInt8} {bytes text : List UInt8} (hbyte : needsOctalEscape byte = false) :
    Escaped bytes text → Escaped (byte :: bytes) (byte :: text)
  | escape (byte : UInt8) {bytes text : List UInt8} :
    Escaped bytes text → Escaped (byte :: bytes) (pushOctalEscape byte ++ text)

/-- The bytes with the octal escapes undone. -/
def octalUnescape : List UInt8 → List UInt8
  | 0x5c :: a :: b :: c :: text =>
    ((a - 0x30) <<< 6 ||| (b - 0x30) <<< 3 ||| (c - 0x30)) :: octalUnescape text
  | byte :: text => byte :: octalUnescape text
  | [] => []

variable {byte : UInt8} {bytes bytes' text text' : List UInt8}

theorem pushOctalEscape_facts (byte : UInt8) :
    octalUnescape (pushOctalEscape byte) = [byte] ∧ 0x0a ∉ pushOctalEscape byte := by
  have hall : ∀ n : Fin 256, octalUnescape (pushOctalEscape (.ofFin n)) = [.ofFin n] ∧
      0x0a ∉ pushOctalEscape (.ofFin n) := by
    decide +kernel
  exact hall byte.toFin

namespace Escaped

theorem append (h : Escaped bytes text) (h' : Escaped bytes' text') :
    Escaped (bytes ++ bytes') (text ++ text') := by
  induction h with
  | nil => exact h'
  | keep hb _ ih => exact ih.keep hb
  | escape byte _ ih =>
    exact ih.escape byte

theorem unescape (h : Escaped bytes text) : octalUnescape text = bytes := by
  induction h with
  | nil => rfl
  | @keep byte bytes text hb h ih =>
    have hne : byte ≠ 0x5c := by
      rintro rfl
      cases hb
    rw [octalUnescape, ih]
    rintro _ _ _ _ rfl
    exact absurd rfl hne
  | escape byte h ih =>
    have hb := (pushOctalEscape_facts byte).1
    simp only [pushOctalEscape, octalUnescape, cons.injEq, and_true] at hb
    simp only [pushOctalEscape, cons_append, nil_append, octalUnescape, hb, ih]

theorem lineFeed_not_mem (h : Escaped bytes text) : 0x0a ∉ text := by
  induction h with
  | nil => exact not_mem_nil
  | keep hb _ ih =>
    rintro (_ | ⟨_, hmem⟩)
    · cases hb
    · exact ih hmem
  | escape byte _ ih =>
    rw [mem_append]
    exact not_or.mpr ⟨(pushOctalEscape_facts byte).2, ih⟩

end Escaped

theorem escaped_keep_all (h : ∀ byte ∈ bytes, 0x80 ≤ byte) : Escaped bytes bytes := by
  induction bytes with
  | nil => exact .nil
  | cons byte bytes ih =>
    have hhigh : 0x80 ≤ byte := h byte mem_cons_self
    have hbyte : needsOctalEscape byte = false := by
      grind [needsOctalEscape]
    exact (ih fun b hb => h b (mem_cons_of_mem _ hb)).keep hbyte

theorem escaped_all (bytes : List UInt8) : Escaped bytes (bytes.flatMap pushOctalEscape) := by
  induction bytes with
  | nil => exact .nil
  | cons byte bytes ih => exact ih.escape byte

/-- The bytes that are taken continue a character, and none is lost. -/
theorem takeContinuation_spec {low : UInt8} (hlow : 0x80 ≤ low) (n : ℕ) (high : UInt8)
    (bytes : List UInt8) :
    (takeContinuation n low high bytes).1 ++ (takeContinuation n low high bytes).2 = bytes ∧
      ∀ byte ∈ (takeContinuation n low high bytes).1, 0x80 ≤ byte := by
  fun_induction takeContinuation n low high bytes with
  | case1 n low high byte bytes hb taken rest heq ih =>
    obtain ⟨happ, htaken⟩ := ih (by decide)
    rw [heq] at happ htaken
    refine ⟨congrArg (cons byte) happ, ?_⟩
    rintro _ (_ | ⟨_, hmem⟩)
    · exact UInt8.le_trans hlow hb.1
    · exact htaken _ hmem
  | case2 | case3 => exact ⟨rfl, nofun⟩

theorem utf8Lead_low {n : ℕ} {low high : UInt8} (h : utf8Lead byte = some (n, low, high)) :
    0x80 ≤ low := by
  unfold utf8Lead at h
  split_ifs at h <;> cases h <;> decide

theorem escaped_octalEscapeFrom {fuel : ℕ} (h : bytes.length ≤ fuel) :
    Escaped bytes (octalEscapeFrom fuel bytes) := by
  induction fuel generalizing bytes with
  | zero =>
    rw [length_eq_zero_iff.mp (Nat.le_zero.mp h)]
    exact .nil
  | succ fuel ih =>
    cases bytes with
    | nil => exact .nil
    | cons byte bytes =>
      have hr : bytes.length ≤ fuel := Nat.le_of_succ_le_succ h
      rw [octalEscapeFrom]
      split_ifs with hasc hneeds
      · exact (ih hr).escape byte
      · exact (ih hr).keep (Bool.eq_false_of_not_eq_true hneeds)
      · cases hlead : utf8Lead byte with
        | none => exact (ih hr).escape byte
        | some lead =>
          obtain ⟨n, low, high⟩ := lead
          obtain ⟨happ, htaken⟩ := takeContinuation_spec (utf8Lead_low hlead) n high bytes
          dsimp only
          generalize takeContinuation n low high bytes = split at happ htaken
          obtain ⟨taken, r⟩ := split
          dsimp only at happ htaken
          subst happ
          have hsh : r.length ≤ fuel := by
            rw [length_append] at hr
            omega
          split_ifs with hwhole hend
          · exact (escaped_keep_all (forall_mem_cons.mpr ⟨UInt8.not_lt.mp hasc, htaken⟩)).append
              (ih hsh)
          · exact (ih hr).escape byte
          · exact (escaped_all (byte :: taken)).append (ih hsh)

theorem escaped_octalEscape (bytes : List UInt8) : Escaped bytes (octalEscape bytes) :=
  escaped_octalEscapeFrom (le_refl _)

/-! ## Lines -/

/-- The payload of a line, between its header and the line feed. -/
def linePayload (header : String) (line : List UInt8) : List UInt8 :=
  (line.drop (textUtf8 header).length).dropLast

theorem line_facts {header : String} (h : 0x0a ∉ textUtf8 header) (bytes : List UInt8) :
    let line := textUtf8 header ++ octalEscape bytes ++ [0x0a]
    (0x0a ∉ line.dropLast ∧ line.getLast? = some 0x0a) ∧
      octalUnescape (linePayload header line) = bytes := by
  have hesc := escaped_octalEscape bytes
  refine ⟨⟨?_, getLast?_concat⟩, ?_⟩
  · rw [dropLast_concat, mem_append]
    exact not_or.mpr ⟨h, hesc.lineFeed_not_mem⟩
  · rw [linePayload, append_assoc, drop_left, dropLast_concat]
    exact hesc.unescape

theorem lineFeed_not_mem_append {a b : String} (ha : 0x0a ∉ textUtf8 a) (hb : 0x0a ∉ textUtf8 b) :
    0x0a ∉ textUtf8 (a ++ b) := by
  simp only [textUtf8, String.toUTF8_eq_toByteArray, String.toByteArray_append,
    ByteArray.data_append, Array.toList_append, mem_append]
  exact not_or.mpr ⟨ha, hb⟩

theorem lineFeed_not_mem_digits (n : ℕ) : 0x0a ∉ textUtf8 (toString n) := by
  have hbs : textUtf8 (toString n) = (Nat.toDigits 10 n).flatMap String.utf8EncodeChar := by
    rw [textUtf8, String.toUTF8_eq_toByteArray, Nat.toString_eq_repr, Nat.repr,
      String.toByteArray_ofList, utf8Encode]
    simp
  rw [hbs, mem_flatMap]
  rintro ⟨c, hc, hfeed⟩
  obtain ⟨hlow, hhigh⟩ := Char.isDigit_iff_toNat.mp
    (Nat.isDigit_of_mem_toDigits (by decide) (by decide) hc)
  have hsz : c.val ≤ 127 := UInt32.le_iff_toNat_le.mpr (hhigh.trans (by decide))
  rw [String.utf8EncodeChar_eq_singleton (Char.utf8Size_eq_one_iff.mpr hsz), mem_singleton] at hfeed
  have hval := congrArg UInt8.toNat hfeed
  have hfit : c.val.toNat < 2 ^ 8 := lt_of_le_of_lt hhigh (by decide)
  rw [UInt32.toNat_toUInt8, Nat.mod_eq_of_lt hfit] at hval
  exact absurd (hlow.trans hval.ge) (by decide)

/-- Every line has one line feed, at its end, and the payloads of the lines of a pane, with the
escapes undone, are the bytes of the pane. -/
theorem output_lines_lossless (paneId : PaneId) :
    (∀ chunks : List (List UInt8),
      (∀ bytes ∈ chunks, 0x0a ∉ (formatOutputLine paneId bytes).dropLast ∧
        (formatOutputLine paneId bytes).getLast? = some 0x0a) ∧
      chunks.flatMap (fun bytes => octalUnescape
          (linePayload s!"%output %{paneId.toNat} " (formatOutputLine paneId bytes))) =
        chunks.flatten) ∧
    ∀ chunks : List (ℕ × List UInt8),
      (∀ chunk ∈ chunks, 0x0a ∉ (formatExtendedOutputLine paneId chunk.1 chunk.2).dropLast ∧
        (formatExtendedOutputLine paneId chunk.1 chunk.2).getLast? = some 0x0a) ∧
      chunks.flatMap (fun chunk => octalUnescape
          (linePayload s!"%extended-output %{paneId.toNat} {chunk.1} : "
            (formatExtendedOutputLine paneId chunk.1 chunk.2))) =
        (chunks.map Prod.snd).flatten := by
  have hid := lineFeed_not_mem_digits paneId.toNat
  have hblank : 0x0a ∉ textUtf8 " " := by decide +kernel
  have hstart : 0x0a ∉ textUtf8 "%output %" := by decide +kernel
  have houtput := line_facts (lineFeed_not_mem_append (lineFeed_not_mem_append hstart hid) hblank)
  have hstart' : 0x0a ∉ textUtf8 "%extended-output %" := by decide +kernel
  have hcolon : 0x0a ∉ textUtf8 " : " := by decide +kernel
  have hextended (age : ℕ) := line_facts (lineFeed_not_mem_append (lineFeed_not_mem_append
    (lineFeed_not_mem_append (lineFeed_not_mem_append hstart' hid) hblank)
      (lineFeed_not_mem_digits age)) hcolon)
  refine ⟨fun chunks => ⟨fun bytes _ => (houtput bytes).1, ?_⟩,
    fun chunks => ⟨fun chunk _ => (hextended chunk.1 chunk.2).1, ?_⟩⟩
  · rw [flatten_eq_flatMap]
    exact congrArg chunks.flatMap (funext fun bytes => (houtput bytes).2)
  · rw [← flatMap_def]
    exact congrArg chunks.flatMap (funext fun chunk => (hextended chunk.1 chunk.2).2)

end Rmux
