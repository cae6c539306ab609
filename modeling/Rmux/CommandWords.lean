import Rmux.CommandLexer
import Rmux.CommandRender

/-!
# Words are read back

An argument that is written for parsing again is read by the lexer as the word it was written from,
in any environment (`readsToken_escapeArgumentForReparse`). The lexer is seen only through the
characters it has still to read (`Lexer.text`), and the loop over the characters of a word goes from
one configuration to the next (`Steps`).
-/

namespace Rmux

open Nat Lexer
open List hiding count

/-! ## The characters still to read -/

/-- The characters of an input as they are read, after `count` backslashes. -/
def cook : ℕ → List Char → List Char
  | count, [] => List.replicate count '\\'
  | count, c :: rest =>
    if c = '\\' then cook (count + 1) rest
    else if c = '\n' ∧ count % 2 = 1 then List.replicate (count - 1) '\\' ++ cook 0 rest
    else List.replicate count '\\' ++ c :: cook 0 rest

theorem length_cook (n : ℕ) (rest : List Char) : (cook n rest).length ≤ n + rest.length := by
  fun_induction cook n rest with
  | case1 n => simp
  | case2 n rest ih =>
    simp only [length_cons]
    omega
  | case3 n c rest hc hjoin ih | case4 n c rest hc hjoin ih =>
    simp only [length_append, length_replicate, length_cons]
    omega

/-- What is left to read of a raw input. -/
def RawInput.text (raw : RawInput) : List Char :=
  List.replicate raw.pendingBackslashes '\\' ++ cook 0 raw.rest

theorem cook_eq_nextRaw (line count : ℕ) (rest : List Char) :
    cook count rest = (nextRaw line count rest).1.toList ++ (nextRaw line count rest).2.text := by
  fun_induction nextRaw line count rest with
  | case1 line => rfl
  | case2 line count => simp [cook, RawInput.text, replicate_succ]
  | case3 line count rest ih => rw [cook, if_pos rfl, ih]
  | case4 line c rest hc => simp [cook, RawInput.text, hc]
  | case5 line c rest hc hcnt hjoin ih =>
    rw [cook, if_neg hc, if_pos hjoin, ih]
    simp
  | case6 line count c rest hc hcnt hjoin hone =>
    rw [cook, if_neg hc, if_pos hjoin]
    obtain ⟨n, rfl⟩ : ∃ n, count = n + 2 := ⟨count - 2, by omega⟩
    simp [RawInput.text, replicate_succ]
  | case7 line count c rest hc hcnt hjoin =>
    rw [cook, if_neg hc, if_neg hjoin]
    obtain ⟨n, rfl⟩ : ∃ n, count = n + 1 := ⟨count - 1, by omega⟩
    simp [RawInput.text, cook, hc, replicate_succ]

theorem text_eq_nil_of_nextRaw_eq_none (line n : ℕ) (rest : List Char)
    (h : (nextRaw line n rest).1 = none) : (nextRaw line n rest).2.text = [] := by
  fun_induction nextRaw line n rest with
  | case1 line => rfl
  | case3 line n rest ih | case5 line c rest hc hcnt hjoin ih => exact ih h
  | _ => cases h

namespace Lexer

variable {l : Lexer} {txt rest bs : List Char} {c : Char} {s last : QuoteState}
  {value : List Char}

def text (l : Lexer) : List Char :=
  l.ungot ++ (List.replicate l.pendingBackslashes '\\' ++ cook 0 l.rest)

/-- The lexer has these characters to read, and has not yet ended. It is not built for Windows. -/
structure Has (l : Lexer) (txt : List Char) : Prop where
  text : l.text = txt
  eof : l.eof = false
  windows : l.context.windows = false

theorem Has.length_le (h : l.Has txt) : txt.length ≤ l.size := by
  have := length_cook 0 l.rest
  rw [← h.text]
  simp only [Lexer.text, Lexer.size, length_append, length_replicate]
  omega

theorem Has.ungetChar (h : l.Has txt) (c : Char) : (l.ungetChar c).Has (c :: txt) :=
  ⟨congrArg (c :: ·) h.text, h.eof, h.windows⟩

/-- Reading a character takes the first one off. -/
theorem getChar_text (l : Lexer) :
    ∃ l', l.getChar = (l.text.head?, l') ∧ l'.text = l.text.tail ∧ l'.eof = l.eof ∧
      l'.context = l.context := by
  unfold getChar
  cases hungot : l.ungot with
  | cons c ungot =>
    exact ⟨{ l with ungot }, by simp [text, hungot], by simp [text, hungot], rfl, rfl⟩
  | nil =>
    cases hpend : l.pendingBackslashes with
    | succ count =>
      exact ⟨{ l with ungot := [], pendingBackslashes := count },
        by simp [text, hungot, hpend, replicate_succ],
        by simp [text, hungot, hpend, replicate_succ], rfl, rfl⟩
    | zero =>
      have hcook := cook_eq_nextRaw l.line 0 l.rest
      have htext : l.text = cook 0 l.rest := by simp [text, hungot, hpend]
      rw [htext, hcook]
      refine ⟨_, Prod.ext ?_ rfl, ?_, rfl, rfl⟩
      · cases hnx : (nextRaw l.line 0 l.rest).1 with
        | some c => rfl
        | none => simp [text_eq_nil_of_nextRaw_eq_none _ _ _ hnx]
      · cases hnx : (nextRaw l.line 0 l.rest).1 with
        | some c => simp [text, RawInput.text]
        | none =>
          have hnil := text_eq_nil_of_nextRaw_eq_none _ _ _ hnx
          simp only [Option.toList_none, nil_append, hnil, tail_nil]
          exact hnil

theorem Has.getChar (h : l.Has txt) : ∃ l', l.getChar = (txt.head?, l') ∧ l'.Has txt.tail := by
  obtain ⟨l', hget, htext, heof, hcontext⟩ := l.getChar_text
  rw [h.text] at hget htext
  exact ⟨l', hget, htext, heof.trans h.eof, hcontext ▸ h.windows⟩

theorem Has.getChar_cons (h : l.Has (c :: txt)) : ∃ l', l.getChar = (some c, l') ∧ l'.Has txt :=
  h.getChar

/-! ## Blanks -/

theorem Has.skipBlanks_nil (h : l.Has []) :
    ∃ l', skipBlanks (l.size + 1) l = (none, l') ∧ l'.Has [] := by
  obtain ⟨l', hget, h'⟩ := h.getChar
  exact ⟨l', by rw [skipBlanks, hget]; rfl, h'⟩

theorem Has.skipBlanks_cons (hc : c ≠ ' ' ∧ c ≠ '\t') :
    ∀ {bs : List Char} {l : Lexer} {n : ℕ}, (∀ b ∈ bs, b = ' ') →
    l.Has (bs ++ c :: txt) → bs.length < n → ∃ l', skipBlanks n l = (some c, l') ∧ l'.Has txt
  | _, _, 0, _, _, hfu => absurd hfu (Nat.not_lt_zero _)
  | [], l, n + 1, _, h, _ => by
    obtain ⟨l', hget, h'⟩ := h.getChar_cons
    exact ⟨l', by simp [skipBlanks, hget, hc.1, hc.2], h'⟩
  | b :: bs, l, n + 1, hbs, h, hfu => by
    obtain ⟨l', hget, h'⟩ := h.getChar_cons
    rw [skipBlanks, hget]
    simp only [hbs b mem_cons_self, true_or, if_true]
    exact Has.skipBlanks_cons hc (fun b hb => hbs b (mem_cons_of_mem _ hb)) h'
      (lt_of_succ_lt_succ hfu)

/-! ## The loop over a word -/

/-- The loop stands at the first of these characters, which is already taken from the lexer. -/
inductive LoopAt : Lexer → Option Char → List Char → Prop
  | nil {l : Lexer} (h : l.Has []) : LoopAt l none []
  | cons {l : Lexer} {c : Char} {txt : List Char} (h : l.Has txt) : LoopAt l (some c) (c :: txt)

theorem Has.loopAt (h : l.Has txt) :
    ∃ l' current, l.getChar = (current, l') ∧ LoopAt l' current txt := by
  obtain ⟨l', hget, h'⟩ := h.getChar
  cases txt with
  | nil => exact ⟨l', none, hget, .nil h'⟩
  | cons c txt => exact ⟨l', some c, hget, .cons h'⟩

/-- Where the loop over a word is : what it has collected, its states and what is left. -/
structure Config where
  buffer : List Char
  state : QuoteState
  last : QuoteState
  rest : List Char

/-- The loop goes from one configuration to another, in no more rounds than characters. -/
def Steps (x y : Config) : Prop :=
  ∃ n, n + y.rest.length ≤ x.rest.length ∧
    ∀ (fuel : ℕ) {l : Lexer} {current : Option Char}, LoopAt l current x.rest →
      ∃ l' current', LoopAt l' current' y.rest ∧
        readTokenLoop (fuel + n) l x.buffer x.state x.last current =
          readTokenLoop fuel l' y.buffer y.state y.last current'

theorem Steps.refl (x : Config) : Steps x x :=
  ⟨0, (zero_add _).le, fun _ {l current} h => ⟨l, current, h, rfl⟩⟩

theorem Steps.trans {x y z : Config} (hxy : Steps x y) (hyz : Steps y z) : Steps x z := by
  obtain ⟨n, hn, hxy⟩ := hxy
  obtain ⟨m, hm, hyz⟩ := hyz
  refine ⟨m + n, by omega, fun fuel {l current} h => ?_⟩
  obtain ⟨l₁, current₁, h₁, heq₁⟩ := hxy (fuel + m) h
  obtain ⟨l₂, current₂, h₂, heq₂⟩ := hyz fuel h₁
  exact ⟨l₂, current₂, h₂, by rw [← add_assoc, heq₁, heq₂]⟩

/-- One round of the loop. -/
theorem steps_one {b b' : List Char} {s' last' : QuoteState} (hlen : rest.length ≤ txt.length)
    (h : ∀ (n : ℕ) {l : Lexer}, l.Has txt → ∃ l' : Lexer, l'.Has rest ∧
      readTokenLoop (n + 1) l b s last (some c) =
        readTokenLoop n l'.getChar.2 b' s' last' l'.getChar.1) :
    Steps ⟨b, s, last, c :: txt⟩ ⟨b', s', last', rest⟩ := by
  refine ⟨1, by simp only [length_cons]; omega, fun n {l current} hat => ?_⟩
  cases hat with
  | cons hl =>
    obtain ⟨l₁, hl₁, heq⟩ := h n hl
    obtain ⟨l₂, current₂, hget, hat₂⟩ := hl₁.loopAt
    exact ⟨l₂, current₂, hat₂, by rw [heq, hget]⟩

/-- A character that stands for itself in this state. -/
structure Plain (state last : QuoteState) (c : Char) : Prop where
  newline : c ≠ '\n'
  unquoted : state = .none → c ≠ '\r' ∧ c ≠ ' ' ∧ c ≠ '\t' ∧ c ≠ ';' ∧ c ≠ '}'
  escape : c = '\\' → state = .singleQuotes
  tilde : c = '~' → last = state ∨ state = .singleQuotes
  dollar : c = '$' → state = .singleQuotes
  singleQuote : c = '\'' → state = .doubleQuotes
  doubleQuote : c = '"' → state = .singleQuotes

theorem steps_plain (h : Plain s last c) (b txt : List Char) :
    Steps ⟨b, s, last, c :: txt⟩ ⟨b ++ [c], s, s, txt⟩ := by
  refine steps_one le_rfl fun {n l} hl => ⟨l, hl, ?_⟩
  have hjoin : (if s = .none then l.joinCarriageReturn c else (c, l)) = (c, l) := by
    split_ifs with hn
    · simp [joinCarriageReturn, (h.unquoted hn).1]
    · rfl
  have hdelimiter : ¬(s = .none ∧ (c = '\n' ∨ c = ' ' ∨ c = '\t' ∨ c = ';' ∨ c = '}')) := by
    rintro ⟨hn, hc⟩
    obtain ⟨-, h₁, h₂, h₃, h₄⟩ := h.unquoted hn
    rcases hc with hc | hc | hc | hc | hc
    exacts [h.newline hc, h₁ hc, h₂ hc, h₃ hc, h₄ hc]
  have hescape : ¬(c = '\\' ∧ s ≠ .singleQuotes) := fun hc => hc.2 (h.escape hc.1)
  have htil : ¬(c = '~' ∧ last ≠ s ∧ s ≠ .singleQuotes) :=
    fun hc => (h.tilde hc.1).elim hc.2.1 hc.2.2
  have hdollar : ¬(c = '$' ∧ s ≠ .singleQuotes) := fun hc => hc.2 (h.dollar hc.1)
  have hsingle : ¬(c = '\'' ∧ (s = .none ∨ s = .singleQuotes)) := by
    rintro ⟨hc, hs⟩
    rw [h.singleQuote hc] at hs
    simp at hs
  have hdbl : ¬(c = '"' ∧ (s = .none ∨ s = .doubleQuotes)) := by
    rintro ⟨hc, hs⟩
    rw [h.doubleQuote hc] at hs
    simp at hs
  rw [readTokenLoop]
  simp only [hjoin, if_neg hdelimiter, if_neg h.newline, if_neg hescape, if_neg htil,
    if_neg hdollar, if_neg hsingle, if_neg hdbl]

/-! ## Escapes -/

/-- A backslash outside single quotes reads an escape. -/
theorem steps_readEscape (hst : s ≠ .singleQuotes) {b b' : List Char}
    (hlen : rest.length ≤ txt.length)
    (h : ∀ {l : Lexer}, l.Has txt → ∃ l', l.readEscape b = .ok (b', l') ∧ l'.Has rest) :
    Steps ⟨b, s, last, '\\' :: txt⟩ ⟨b', s, s, rest⟩ := by
  refine steps_one hlen fun {n l} hl => ?_
  obtain ⟨l', hrd, hl'⟩ := h hl
  refine ⟨l', hl', ?_⟩
  have hjoin : (if s = .none then l.joinCarriageReturn '\\' else ('\\', l)) = ('\\', l) := by
    split_ifs <;> rfl
  rw [readTokenLoop]
  simp only [hjoin, hl.windows, Char.reduceEq, or_self, and_false, if_false, true_and, hst, ne_eq,
    not_false_eq_true, if_true, Bool.false_eq_true, false_and, hrd]
  rfl

theorem steps_escape (hst : s ≠ .singleQuotes)
    (hc : ¬('0' ≤ c ∧ c ≤ '7') ∧ c ≠ 'u' ∧ c ≠ 'U') (b txt : List Char) :
    Steps ⟨b, s, last, '\\' :: c :: txt⟩ ⟨b ++ [escapedChar c], s, s, txt⟩ := by
  refine steps_readEscape hst (le_succ _) fun {l} hl => ?_
  obtain ⟨l', hget, hl'⟩ := hl.getChar_cons
  have hhigh : ('4' ≤ c && c ≤ '7') = false := by
    simp only [Bool.and_eq_false_iff, decide_eq_false_iff_not]
    by_contra hd
    push Not at hd
    exact hc.1 ⟨Char.le_trans (by decide : '0' ≤ '4') hd.1, hd.2⟩
  have hlow : ('0' ≤ c && c ≤ '3') = false := by
    simp only [Bool.and_eq_false_iff, decide_eq_false_iff_not]
    by_contra hd
    push Not at hd
    exact hc.1 ⟨hd.1, Char.le_trans hd.2 (by decide : '3' ≤ '7')⟩
  refine ⟨l', ?_, hl'⟩
  rw [readEscape, hget]
  simp [hl'.windows, hhigh, hlow, hc.2.1, hc.2.2]

/-- The digits of an ASCII character are octal digits, the first one small, and give it back. -/
theorem octalDigits_value : ∀ n < 128,
    ('4' ≤ Char.ofNat (48 + n / 64) && Char.ofNat (48 + n / 64) ≤ '7') = false ∧
    ('0' ≤ Char.ofNat (48 + n / 64) && Char.ofNat (48 + n / 64) ≤ '3') = true ∧
    isOctalDigit (Char.ofNat (48 + n / 8 % 8)) = true ∧ isOctalDigit (Char.ofNat (48 + n % 8)) = true ∧
    64 * ((Char.ofNat (48 + n / 64)).toNat - '0'.toNat) +
      8 * ((Char.ofNat (48 + n / 8 % 8)).toNat - '0'.toNat) +
      ((Char.ofNat (48 + n % 8)).toNat - '0'.toNat) = n := by
  decide +kernel

theorem steps_octalDigits (hst : s ≠ .singleQuotes) {n : ℕ} (hn : n < 128) (b txt : List Char) :
    Steps ⟨b, s, last, '\\' :: (octalDigits n ++ txt)⟩
      ⟨b ++ [Char.ofNat n], s, s, txt⟩ := by
  refine steps_readEscape hst (by simp [octalDigits]; omega) fun {l} hl => ?_
  obtain ⟨hhigh, hlow, h₂, h₃, hval⟩ := octalDigits_value n hn
  obtain ⟨l₁, hget₁, hl₁⟩ := hl.getChar_cons
  obtain ⟨l₂, hget₂, hl₂⟩ := hl₁.getChar_cons
  obtain ⟨l₃, hget₃, hl₃⟩ := hl₂.getChar_cons
  refine ⟨l₃, ?_, hl₃⟩
  simp only [readEscape, hget₁, hl₁.windows, false_and, hhigh, hlow, readOctalEscape, hget₂, hget₃,
    h₂, h₃, hval, Bool.and_self, if_true, Bool.false_eq_true, if_false]

/-- A character that is escaped everywhere, or stands for itself. -/
theorem steps_escapeLineChar (hst : s ≠ .singleQuotes)
    (hpl : c ≠ '\n' → c ≠ '\r' → c ≠ '\t' → c ≠ '\\' → Plain s last c) (b txt : List Char) :
    Steps ⟨b, s, last, escapeLineChar c ++ txt⟩ ⟨b ++ [c], s, s, txt⟩ := by
  unfold escapeLineChar escapeControlArgumentChar
  split_ifs with hn hr ht hb h₁ h₂ h₃ h₄ h₅ hctl
  -- eight characters have an escape of their own
  iterate 8
    · subst c
      exact steps_escape hst (by decide) b txt
  · subst c
    exact steps_octalDigits hst (by decide) b txt
  · have hlt : c.toNat < 128 := by
      simp only [isAsciiControl, Bool.or_eq_true, decide_eq_true_eq] at hctl
      omega
    have : Steps ⟨b, s, last, _⟩ _ := steps_octalDigits hst hlt b txt
    rwa [Char.ofNat_toNat] at this
  · exact steps_plain (hpl hn hr ht hb) b txt

/-! ## Dollars and quotes -/

/-- A dollar before something that starts no name stands for itself. -/
theorem steps_dollar (hst : s ≠ .singleQuotes)
    (hc : dollarStartsVariable c = false) (b txt : List Char) :
    Steps ⟨b, s, last, '$' :: c :: txt⟩ ⟨b ++ ['$'], s, s, c :: txt⟩ := by
  refine steps_one le_rfl fun {n l} hl => ?_
  obtain ⟨l', hget, hl'⟩ := hl.getChar_cons
  refine ⟨l'.ungetChar c, hl'.ungetChar c, ?_⟩
  simp only [dollarStartsVariable, Bool.or_eq_false_iff, decide_eq_false_iff_not] at hc
  have hvar : isVarChar c true = false := by
    simp only [isVarChar, isAsciiAlphanumeric, Char.isAlphanum, hc.2, hc.1.2, Bool.false_or,
      Bool.true_and]
    split_ifs <;> simp_all
  have hjoin : (if s = .none then l.joinCarriageReturn '$' else ('$', l)) = ('$', l) := by
    split_ifs <;> rfl
  have hrd : l.readVariable b = .ok (b ++ ['$'], l'.ungetChar c) := by
    simp [readVariable, hget, hc.1.1, hvar]
  rw [readTokenLoop]
  simp only [hjoin, Char.reduceEq, or_self, and_false, if_false, true_and, hst, ne_eq,
    not_false_eq_true, if_true, false_and, hrd]
  rfl

/-- The quotes, with the state between them. -/
inductive IsQuote : Char → QuoteState → Prop
  | single : IsQuote '\'' .singleQuotes
  | double : IsQuote '"' .doubleQuotes

/-- What is read between two quotes is read with them. -/
theorem Steps.quoted (hc : IsQuote c s)
    (h : Steps ⟨[], s, .start, txt⟩ ⟨value, s, last, c :: rest⟩) :
    Steps ⟨[], .none, .start, c :: txt⟩ ⟨value, .none, last, rest⟩ := by
  cases hc with
  | single | double =>
    refine .trans (steps_one le_rfl fun _ {l} hl => ⟨l, hl, rfl⟩) (h.trans ?_)
    exact steps_one le_rfl fun _ {l} hl => ⟨l, hl, rfl⟩

/-! ## The three forms of an argument -/

theorem steps_escapeUnquotedChar {first : Bool}
    (hfst : first = false → last = .none) (hc : c ≠ ' ') (b txt : List Char) :
    Steps ⟨b, .none, last, escapeUnquotedChar first c ++ txt⟩
      ⟨b ++ [c], .none, .none, txt⟩ := by
  unfold escapeUnquotedChar
  split_ifs with htil hspec
  · obtain ⟨rfl, -⟩ := htil
    exact steps_escape (by decide) (by decide) b txt
  · have hesc : (¬('0' ≤ c ∧ c ≤ '7') ∧ c ≠ 'u' ∧ c ≠ 'U') ∧ escapedChar c = c := by
      simp only [isSpecial, Bool.or_eq_true, decide_eq_true_eq] at hspec
      rcases hspec with (((((((rfl | rfl) | rfl) | rfl) | rfl) | rfl) | rfl) | rfl) <;> decide
    have : Steps ⟨b, .none, last, _⟩ _ := steps_escape (by decide) hesc.1 b txt
    rwa [hesc.2] at this
  · simp only [isSpecial, Bool.or_eq_true, decide_eq_true_eq, not_or] at hspec
    obtain ⟨⟨⟨⟨⟨⟨⟨h₁, h₂⟩, h₃⟩, h₄⟩, h₅⟩, h₆⟩, h₇⟩, h₈⟩ := hspec
    refine steps_escapeLineChar (by decide) (fun hn hr ht hb => ?_) b txt
    refine ⟨hn, fun _ => ⟨hr, hc, ht, h₁, h₃⟩, fun h => absurd h hb, fun h => .inl ?_,
      fun h => absurd h h₇, fun h => absurd h h₄, fun h => absurd h h₅⟩
    exact hfst (by simpa [h] using htil)

theorem steps_flatMap_escapeUnquotedChar :
    ∀ {value : List Char}, (∀ c ∈ value, c ≠ ' ') → ∀ b txt : List Char,
      Steps ⟨b, .none, .none, value.flatMap (escapeUnquotedChar false) ++ txt⟩
        ⟨b ++ value, .none, .none, txt⟩
  | [], _, b, txt => by simpa using Steps.refl _
  | c :: value, hval, b, txt => by
    rw [List.flatMap_cons, List.append_assoc]
    refine (steps_escapeUnquotedChar (fun _ => rfl) (hval c List.mem_cons_self) b _).trans ?_
    have := steps_flatMap_escapeUnquotedChar
      (fun c hc => hval c (List.mem_cons_of_mem _ hc)) (b ++ [c]) txt
    rwa [List.append_assoc] at this

theorem steps_escapeUnquotedArgument (hne : value ≠ []) (hval : ∀ c ∈ value, c ≠ ' ')
    (txt : List Char) :
    Steps ⟨[], .none, .start, escapeUnquotedArgument value ++ txt⟩ ⟨value, .none, .none, txt⟩ := by
  cases value with
  | nil => exact absurd rfl hne
  | cons c value =>
    rw [escapeUnquotedArgument, List.append_assoc]
    refine (steps_escapeUnquotedChar (by simp) (hval c List.mem_cons_self) [] _).trans ?_
    exact steps_flatMap_escapeUnquotedChar (fun c hc => hval c (List.mem_cons_of_mem _ hc)) [c] txt

/-- In single quotes everything stands for itself but the quote and a newline. -/
theorem steps_singleQuoted (txt : List Char) : ∀ {value : List Char} (b : List Char)
    (last : QuoteState),
    (∀ c ∈ value, c ≠ '\'' ∧ c ≠ '\n') →
    ∃ last', Steps ⟨b, .singleQuotes, last, value ++ txt⟩
      ⟨b ++ value, .singleQuotes, last', txt⟩
  | [], b, last, _ => ⟨last, by simpa using Steps.refl _⟩
  | c :: value, b, last, hval => by
    obtain ⟨hquote, hnewline⟩ := hval c List.mem_cons_self
    have hpl : Plain .singleQuotes last c :=
      ⟨hnewline, by simp, fun _ => rfl, fun _ => .inr rfl, fun _ => rfl,
        fun h => absurd h hquote, fun _ => rfl⟩
    obtain ⟨last', hr⟩ := steps_singleQuoted txt (b ++ [c]) .singleQuotes
      fun c hc => hval c (List.mem_cons_of_mem _ hc)
    refine ⟨last', (steps_plain hpl b (value ++ txt)).trans ?_⟩
    simpa using hr

theorem steps_escapeDoubleQuotedChar {first : Bool}
    {next : Option Char} (hfst : first = false → last = .doubleQuotes) {x : Char}
    (hnx : next.any dollarStartsVariable = false → dollarStartsVariable x = false)
    (b txt : List Char) :
    Steps ⟨b, .doubleQuotes, last, escapeDoubleQuotedChar first c next ++ x :: txt⟩
      ⟨b ++ [c], .doubleQuotes, .doubleQuotes, x :: txt⟩ := by
  unfold escapeDoubleQuotedChar
  split_ifs with htil hdollar hquote
  · obtain ⟨rfl, -⟩ := htil
    exact steps_escape (by decide) (by decide) b _
  · obtain ⟨rfl, -⟩ := hdollar
    exact steps_escape (by decide) (by decide) b _
  · subst hquote
    exact steps_escape (by decide) (by decide) b _
  · by_cases hc : c = '$'
    · subst hc
      exact steps_dollar (by decide) (hnx (by simpa using hdollar)) b txt
    · refine steps_escapeLineChar (by decide) (fun hn hr ht hb => ?_) b _
      refine ⟨hn, by simp, fun h => absurd h hb, fun h => .inl ?_, fun h => absurd h hc,
        fun _ => rfl, fun h => absurd h hquote⟩
      exact hfst (by simpa [h] using htil)

theorem head_escapeControlArgumentChar (c : Char) :
    ∃ x rest, escapeControlArgumentChar c = x :: rest ∧ (x = c ∨ x = '\\') := by
  unfold escapeControlArgumentChar
  split_ifs <;> exact ⟨_, _, rfl, by simp⟩

theorem head_escapeDoubleQuotedChar (first : Bool) (c : Char) (next : Option Char) :
    ∃ x rest, escapeDoubleQuotedChar first c next = x :: rest ∧ (x = c ∨ x = '\\') := by
  unfold escapeDoubleQuotedChar escapeLineChar
  split_ifs
  all_goals first
    | exact ⟨_, _, rfl, by simp⟩
    | exact head_escapeControlArgumentChar c

theorem steps_escapeDoubleQuotedFrom (txt : List Char) :
    ∀ (value b : List Char) (first : Bool) (last : QuoteState),
      (first = false → last = .doubleQuotes) →
      ∃ last', Steps ⟨b, .doubleQuotes, last, escapeDoubleQuotedFrom first value ++ '"' :: txt⟩
        ⟨b ++ value, .doubleQuotes, last', '"' :: txt⟩
  | [], b, first, last, _ => ⟨last, by simpa [escapeDoubleQuotedFrom] using Steps.refl _⟩
  | c :: value, b, first, last, hfst => by
    -- what follows starts with the next character or a backslash, or ends the quotes
    obtain ⟨x, rest, hx, hnx⟩ : ∃ x rest, escapeDoubleQuotedFrom false value ++ '"' :: txt = x :: rest ∧
        (value.head?.any dollarStartsVariable = false → dollarStartsVariable x = false) := by
      cases value with
      | nil => exact ⟨'"', txt, rfl, fun _ => by decide⟩
      | cons c' value =>
        obtain ⟨x, rest, hx, hor⟩ := head_escapeDoubleQuotedChar false c' value.head?
        refine ⟨x, rest ++ escapeDoubleQuotedFrom false value ++ '"' :: txt,
          by simp [escapeDoubleQuotedFrom, hx], fun h => ?_⟩
        rcases hor with rfl | rfl
        · simpa using h
        · decide
    obtain ⟨last', hr⟩ := steps_escapeDoubleQuotedFrom txt value
      (b ++ [c]) false .doubleQuotes fun _ => rfl
    refine ⟨last', ?_⟩
    rw [escapeDoubleQuotedFrom, List.append_assoc]
    rw [hx] at hr ⊢
    refine (steps_escapeDoubleQuotedChar hfst hnx b rest).trans ?_
    simpa using hr

theorem escapeLineChar_eq_self (hb : c ≠ '\\') (hctl : isAsciiControl c = false) :
    escapeLineChar c = [c] := by
  unfold escapeLineChar escapeControlArgumentChar
  split_ifs with h₁ h₂ h₃ h₄ h₅ h₆ h₇ h₈ h₉
  all_goals first
    | rfl
    | (subst_vars
       exact absurd hctl (by decide))
    | simp_all

/-- What may follow a word. -/
def Delimited (rest : List Char) : Prop := rest = [] ∨ ∃ txt, rest = ' ' :: txt

theorem ne_blank_of_isSingleCharEscapedArgument (h : isSingleCharEscapedArgument value = true)
    (hc : c ∈ value) : c ≠ ' ' := by
  rcases value with _ | ⟨d, _ | _⟩
  · cases hc
  · rintro rfl
    obtain rfl := List.mem_singleton.mp hc
    exact absurd h (by decide)
  · cases h

theorem ne_blank_of_not_any (h : ¬value.any argumentNeedsDoubleQuotes = true) (hc : c ∈ value) :
    c ≠ ' ' := by
  rintro rfl
  simp only [List.any_eq_true, not_exists, not_and] at h
  exact h _ hc (by decide)

/-- An argument is read back, whatever follows. -/
theorem steps_escapeArgumentForReparse (value txt : List Char) :
    ∃ last, Steps ⟨[], .none, .start, escapeArgumentForReparse value ++ txt⟩
      ⟨value, .none, last, txt⟩ := by
  have hdbl : ∃ last, Steps ⟨[], .none, .start,
      '"' :: (escapeDoubleQuotedArgument value ++ ['"']) ++ txt⟩ ⟨value, .none, last, txt⟩ := by
    obtain ⟨last, h⟩ := steps_escapeDoubleQuotedFrom txt value [] true .start (by simp)
    refine ⟨last, ?_⟩
    rw [List.cons_append, List.append_assoc]
    exact h.quoted .double
  unfold escapeArgumentForReparse
  dsimp only
  split_ifs with hrep
  · exact hdbl
  · unfold escapeArgument
    split_ifs with hemp hspec hpl hquote
    · obtain rfl := List.isEmpty_iff.mp hemp
      exact ⟨_, (Steps.refl _).quoted .single⟩
    · exact ⟨_, steps_escapeUnquotedArgument (by simpa using hemp)
        (fun c hc => ne_blank_of_isSingleCharEscapedArgument hspec hc) txt⟩
    · exact hdbl
    · -- in single quotes there are no escapes : neither backslashes nor control characters
      rw [Bool.not_eq_true] at hpl
      simp only [hquote, hpl, Bool.not_false, Bool.and_self, Bool.true_and, Bool.not_eq_true,
        List.any_eq_false, Bool.or_eq_false_iff, decide_eq_false_iff_not] at hrep
      rw [List.any_eq_false] at hpl
      have hid : escapeSingleQuotedArgument value = value :=
        (List.flatMap_congr fun c hc => escapeLineChar_eq_self (hrep c hc).1
          (hrep c hc).2).trans (List.flatMap_singleton' value)
      obtain ⟨last, h⟩ := steps_singleQuoted ('\'' :: txt) [] .start
        fun c hc => ⟨by
          rintro rfl
          exact hpl _ hc (by decide), by
          rintro rfl
          exact absurd (hrep _ hc).2 (by decide)⟩
      refine ⟨last, ?_⟩
      rw [hid, List.cons_append, List.append_assoc]
      exact h.quoted .single
    · exact ⟨_, steps_escapeUnquotedArgument (by simpa using hemp)
        (fun c hc => ne_blank_of_not_any hpl hc) txt⟩

/-! ## Tokens -/

theorem readTokenLoop_delimited (hr : Delimited rest) (n : ℕ) {current : Option Char}
    (h : LoopAt l current rest) (b : List Char) (last : QuoteState) :
    ∃ l', readTokenLoop (n + 1) l b .none last current = .ok (b, l') ∧ l'.Has rest := by
  cases h with
  | nil hl => exact ⟨l, rfl, hl⟩
  | @cons c txt hl =>
    rcases hr with h | ⟨txt', h⟩
    · cases h
    · obtain ⟨rfl, rfl⟩ := List.cons.inj h
      exact ⟨l.ungetChar ' ', rfl, hl.ungetChar ' '⟩

/-- A word whose loop ends before a delimiter is read. -/
theorem Has.readToken (h : l.Has txt)
    (hsts : Steps ⟨[], .none, .start, c :: txt⟩ ⟨value, .none, last, rest⟩)
    (hr : Delimited rest) : ∃ l', l.readToken c = .ok (value, l') ∧ l'.Has rest := by
  obtain ⟨n, hn, hsts⟩ := hsts
  have hsz := h.length_le
  simp only [List.length_cons] at hn
  obtain ⟨fuel, hfu⟩ : ∃ fuel, l.size + 2 = fuel + 1 + n := ⟨l.size + 1 - n, by omega⟩
  obtain ⟨l₁, current, hat, heq⟩ := hsts (fuel + 1) (LoopAt.cons h)
  obtain ⟨l₂, hend, hl₂⟩ := readTokenLoop_delimited hr fuel hat value last
  refine ⟨l₂, ?_, hl₂⟩
  rw [Lexer.readToken, hfu, heq, hend]

/-- With these characters to read the next token is `t`, and `rest` is left. -/
def ReadsToken (txt : List Char) (t : LexToken) (rest : List Char) : Prop :=
  ∀ {l : Lexer}, l.Has txt → ∃ s l', l.nextToken = .ok (s, l') ∧ s.token = t ∧ l'.Has rest

/-- The token that starts with `c`, after blanks. -/
theorem readsToken_of_readTokenAt {t : LexToken} (hbs : ∀ b ∈ bs, b = ' ')
    (hc : c ≠ ' ' ∧ c ≠ '\t' ∧ c ≠ '\r') (h : ∀ {l : Lexer} (condition : Bool), l.Has txt →
      ∃ l', l.readTokenAt condition c = .ok (t, l') ∧ l'.Has rest) :
    ReadsToken (bs ++ c :: txt) t rest := by
  intro l hl
  have hl₁ : Has { l with
      line := if l.eol then l.line + 1 else l.line, eol := false, condition := false }
      (bs ++ c :: txt) := ⟨hl.text, hl.eof, hl.windows⟩
  have hsz := hl₁.length_le
  rw [List.length_append] at hsz
  obtain ⟨l₂, hskip, hl₂⟩ := Has.skipBlanks_cons ⟨hc.1, hc.2.1⟩ hbs hl₁
    (Nat.lt_succ_of_le (le_trans (Nat.le_add_right _ _) hsz))
  obtain ⟨l₃, hrd, hl₃⟩ := h l.condition hl₂
  refine ⟨l₃.spanned t, l₃, ?_, rfl, hl₃⟩
  rw [nextToken]
  simp only [hskip, joinCarriageReturn, if_neg hc.2.2, hrd]
  rfl

/-- The tokens of one character. -/
inductive IsMark : Char → LexToken → Prop
  | semicolon : IsMark ';' .semicolon
  | openBrace : IsMark '{' .openBrace
  | closeBrace : IsMark '}' .closeBrace

theorem IsMark.readsToken {t : LexToken} (hc : IsMark c t) (hbs : ∀ b ∈ bs, b = ' ')
    (rest : List Char) : ReadsToken (bs ++ c :: rest) t rest := by
  cases hc with
  | semicolon | openBrace | closeBrace =>
    exact readsToken_of_readTokenAt hbs (by decide) fun {l} _ hl => ⟨l, rfl, hl⟩

/-- A character that starts a word, rather than another token. -/
def StartsWord (c : Char) : Prop :=
  c ≠ ' ' ∧ c ≠ '\t' ∧ c ≠ '\r' ∧ c ≠ '\n' ∧ c ≠ ';' ∧ c ≠ '{' ∧ c ≠ '}' ∧ c ≠ '#' ∧ c ≠ '%'

instance (c : Char) : Decidable (StartsWord c) := inferInstanceAs (Decidable (_ ∧ _))

theorem head_escapeUnquotedChar (first : Bool) (hc : c ≠ ' ') :
    ∃ x rest, escapeUnquotedChar first c = x :: rest ∧ StartsWord x := by
  unfold escapeUnquotedChar escapeLineChar
  split_ifs with htil hspec hn hr ht hb
  any_goals exact ⟨_, _, rfl, by decide⟩
  obtain ⟨x, rest, hx, rfl | rfl⟩ := head_escapeControlArgumentChar c
  · refine ⟨x, rest, hx, ?_⟩
    simp only [isSpecial, Bool.or_eq_true, decide_eq_true_eq, not_or] at hspec
    simp only [StartsWord, ne_eq]
    tauto
  · exact ⟨_, rest, hx, by decide⟩

theorem head_escapeUnquotedArgument (hne : value ≠ []) (hval : ∀ c ∈ value, c ≠ ' ') :
    ∃ c txt, escapeUnquotedArgument value = c :: txt ∧ StartsWord c := by
  cases value with
  | nil => exact absurd rfl hne
  | cons c value =>
    obtain ⟨x, rest, hx, hst⟩ :=
      head_escapeUnquotedChar true (hval c List.mem_cons_self)
    exact ⟨x, rest ++ value.flatMap (escapeUnquotedChar false), by rw [escapeUnquotedArgument, hx]; rfl,
      hst⟩

theorem head_escapeArgumentForReparse (value : List Char) :
    ∃ c txt, escapeArgumentForReparse value = c :: txt ∧ StartsWord c := by
  unfold escapeArgumentForReparse escapeArgument
  dsimp only
  split_ifs with hrep hemp hspec hpl hquote
  any_goals exact ⟨_, _, rfl, by decide⟩
  · refine head_escapeUnquotedArgument (by simpa using hemp) fun c hc => ?_
    exact ne_blank_of_isSingleCharEscapedArgument hspec hc
  · refine head_escapeUnquotedArgument (by simpa using hemp) fun c hc => ?_
    exact ne_blank_of_not_any hpl hc

/-- A written argument is read as the word it was written from. -/
theorem readsToken_escapeArgumentForReparse (hbs : ∀ b ∈ bs, b = ' ')
    (value : List Char) (hr : Delimited rest) :
    ReadsToken (bs ++ (escapeArgumentForReparse value ++ rest)) (classifyWord value) rest := by
  obtain ⟨last, hsts⟩ := steps_escapeArgumentForReparse value rest
  obtain ⟨c, txt, heq, h₁, h₂, h₃, h₄, h₅, h₆, h₇, h₈, h₉⟩ := head_escapeArgumentForReparse value
  rw [heq, List.cons_append] at hsts ⊢
  refine readsToken_of_readTokenAt hbs ⟨h₁, h₂, h₃⟩ fun {l} condition hl => ?_
  obtain ⟨l', hrd, hl'⟩ := hl.readToken hsts hr
  refine ⟨l', ?_, hl'⟩
  simp only [readTokenAt, if_neg h₄, if_neg h₅, if_neg h₆, if_neg h₇, if_neg h₈, if_neg h₉, hrd]
  rfl

/-! ## Directives and the end -/

/-- A word without quotes ends before a blank. -/
theorem Has.readWordLoop : ∀ {word : List Char} {l : Lexer} {n : ℕ} (b : List Char),
    (∀ c ∈ word, c ≠ ' ' ∧ c ≠ '\t' ∧ c ≠ '\n') → l.Has (word ++ ' ' :: rest) → word.length < n →
    ∃ l', readWordLoop n l b = (b ++ word, l') ∧ l'.Has (' ' :: rest)
  | _, _, 0, _, _, _, hfu => absurd hfu (Nat.not_lt_zero _)
  | [], l, n + 1, b, _, h, _ => by
    obtain ⟨l', hget, h'⟩ := h.getChar_cons
    exact ⟨l'.ungetChar ' ', by simp [Lexer.readWordLoop, hget], h'.ungetChar ' '⟩
  | c :: word, l, n + 1, b, hw, h, hfu => by
    obtain ⟨l₁, hget, h₁⟩ := h.getChar_cons
    obtain ⟨hc₁, hc₂, hc₃⟩ := hw c List.mem_cons_self
    obtain ⟨l', hrd, h'⟩ := h₁.readWordLoop (b ++ [c])
      (fun c hc => hw c (List.mem_cons_of_mem _ hc)) (Nat.lt_of_succ_lt_succ hfu)
    refine ⟨l', ?_, h'⟩
    rw [Lexer.readWordLoop, hget]
    simp [hc₁, hc₂, hc₃, hrd]

theorem readsToken_hidden (hbs : ∀ b ∈ bs, b = ' ') (rest : List Char) :
    ReadsToken (bs ++ '%' :: ("hidden".toList ++ ' ' :: rest)) .hidden (' ' :: rest) := by
  refine readsToken_of_readTokenAt hbs (by decide) fun {l} _ hl => ?_
  have hsz := hl.length_le
  rw [List.length_append] at hsz
  obtain ⟨l', hrd, hl'⟩ := hl.readWordLoop ['%'] (by simp)
    (Nat.lt_succ_of_le (le_trans (Nat.le_add_right _ _) hsz))
  refine ⟨{ l' with condition := true }, ?_, hl'.text, hl'.eof, hl'.windows⟩
  have hw : l.readWord '%' = ("%hidden".toList, l') := hrd
  simp only [readTokenAt, readPercentWord, hw]
  rfl

/-- At the end there is a newline. -/
theorem Has.nextToken_nil (h : l.Has []) :
    ∃ s l', l.nextToken = .ok (s, l') ∧ s.token = .newline ∧ l'.text = [] ∧ l'.eof = true := by
  have hl₁ : Has { l with
      line := if l.eol then l.line + 1 else l.line, eol := false, condition := false } [] :=
    ⟨h.text, h.eof, h.windows⟩
  obtain ⟨l₂, hskip, hl₂⟩ := hl₁.skipBlanks_nil
  refine ⟨l₂.spanned .newline, { l₂ with eof := true }, ?_, rfl, hl₂.text, rfl⟩
  rw [nextToken]
  simp only [hskip, hl₂.eof, Bool.false_eq_true, if_false]

/-- After it the input has ended. -/
theorem nextToken_eof (htext : l.text = []) (heof : l.eof = true) :
    ∃ s l', l.nextToken = .ok (s, l') ∧ s.token = .eof ∧ l'.text = [] ∧ l'.eof = true := by
  obtain ⟨l₂, hget, htext₂, heof₂, -⟩ := getChar_text { l with
    line := if l.eol then l.line + 1 else l.line, eol := false, condition := false }
  have hhd : text { l with
      line := if l.eol then l.line + 1 else l.line, eol := false, condition := false } = [] := htext
  have hended : l₂.eof = true := heof₂.trans heof
  rw [hhd] at hget htext₂
  refine ⟨l₂.spanned .eof, l₂, ?_, rfl, htext₂, hended⟩
  rw [nextToken]
  simp only [skipBlanks, hget, head?_nil, hended, if_true]

end Lexer

end Rmux
