import Mathlib.Data.List.TakeDrop
import Rmux.CommandResolution
import Rmux.CommandWords

/-!
# The tokens of a written list

A command list whose commands all have full names is written as a text that the lexer reads as the
tokens of the list (`yields_renderCommands`, `yields_renderArguments`), in any environment and
whatever follows. The full names are written as they are, stand for themselves when they are looked
up, and are no builtin aliases (`fullName_facts`).
-/

namespace Rmux

open Lexer List

/-! ## Full names -/

/-- The full name of an entry of the command table. -/
abbrev IsFull (name : String) : Prop := IsCanonical [] name

theorem commandTable_facts : ∀ e ∈ commandTable,
    escapeArgumentForReparse e.name.toList = e.name.toList ∧
    isParseTimeAssignment e.name.toList = false ∧ e.name ≠ "" ∧
    CommandAlias.builtin.find? (·.name = e.name) = none ∧
    commandTable.find? (·.aliasName = some e.name) = none ∧
    scanPrefixes e.name commandTable none false = (some e, false) := by
  decide +kernel

/-- What matters of a full name. -/
structure FullNameFacts (name : String) : Prop where
  escaped : escapeArgumentForReparse name.toList = name.toList
  word : classifyWord name.toList = .token name
  nonempty : name.toList ≠ []
  noAlias : CommandAlias.builtin.find? (·.name = name) = none
  lookup : ∀ line, ∃ entry, lookupCommandAt name line [] = .ok entry ∧ entry.name = name

theorem fullName_facts (h : IsFull name) : FullNameFacts name := by
  obtain ⟨e, hmem, rfl⟩ := h
  obtain ⟨h₁, h₂, h₃, h₄, h₅, h₆⟩ := commandTable_facts e (by simpa using hmem)
  refine ⟨h₁, ?_, fun h => h₃ (String.toList_eq_nil_iff.mp h), h₄, fun line => ⟨e, ?_, rfl⟩⟩
  · simp [classifyWord, h₂]
  · simp [lookupCommandAt, h₅, h₆]

/-! ## Tokens -/

def EnvironmentAssignment.tokens (a : EnvironmentAssignment) : List LexToken :=
  if a.hidden then [.hidden, .equals (String.ofList a.word)] else [.equals (String.ofList a.word)]

def assignmentTokens : List EnvironmentAssignment → List LexToken
  | [] => []
  | [a] => a.tokens
  | a :: rest => a.tokens ++ .semicolon :: assignmentTokens rest

def separatorTokens (started : Bool) (previousLine : Option ℕ) (line : ℕ) : List LexToken :=
  if started then if previousLine.any (· ≠ line) then [.semicolon, .semicolon] else [.semicolon]
  else []

mutual

/-- The tokens of commands, with whether any stand before them and the line of the last command. -/
def commandsTokens : Bool → Option ℕ → List ParsedCommand → List LexToken
  | _, _, [] => []
  | started, previousLine, c :: cs =>
    separatorTokens started previousLine c.line ++ commandTokens c ++
      commandsTokens true (some c.line) cs

def commandTokens : ParsedCommand → List LexToken
  | .mk name arguments _ _ => .token name :: argumentsTokens arguments

def argumentsTokens : List CommandArgument → List LexToken
  | [] => []
  | a :: arguments => argumentTokens a ++ argumentsTokens arguments

def argumentTokens : CommandArgument → List LexToken
  | .string value => [classifyWord value.toList]
  | .commands (.mk commands _ _) => .openBrace :: (commandsTokens false none commands ++ [.closeBrace])

end

/-! ## Reading several tokens -/

/-- What a lexer has left. -/
inductive Remaining
  | text (txt : List Char)
  | ended

/-- With `x` left the next tokens are these, and `y` is left after them. -/
inductive Yields : Remaining → List LexToken → Remaining → Prop
  | nil {x : Remaining} : Yields x [] x
  | cons {txt rest : List Char} {t : LexToken} {ts : List LexToken} {y : Remaining}
      (hread : ReadsToken txt t rest) (hlen : rest.length < txt.length)
      (h : Yields (.text rest) ts y) : Yields (.text txt) (t :: ts) y
  | newline {ts : List LexToken} {y : Remaining} (h : Yields .ended ts y) :
      Yields (.text []) (.newline :: ts) y
  | eof {ts : List LexToken} {y : Remaining} (h : Yields .ended ts y) : Yields .ended (.eof :: ts) y

variable {x y z : Remaining} {ts us : List LexToken} {txt rest bs : List Char} {name : String}
  {arguments : List CommandArgument} {xs : List Char} {line : ℕ}

theorem Yields.append (h : Yields x ts y) (h' : Yields y us z) : Yields x (ts ++ us) z := by
  induction h with
  | nil => exact h'
  | cons hrd hlen _ ih => exact .cons hrd hlen (ih h')
  | newline _ ih => exact .newline (ih h')
  | eof _ ih => exact .eof (ih h')

theorem Yields.single {t : LexToken} (h : ReadsToken txt t rest) (hlen : rest.length < txt.length) :
    Yields (.text txt) [t] (.text rest) :=
  .cons h hlen .nil

/-- Every token takes a character. -/
theorem Yields.length_le (h : Yields x ts y) :
    ∀ {txt rest : List Char}, x = .text txt → y = .text rest →
      ts.length + rest.length ≤ txt.length := by
  have hended : ∀ {x : Remaining} {ts : List LexToken}, Yields .ended ts x → x = .ended := by
    intro x ts h
    generalize hx : Remaining.ended = w at h
    induction h with
    | nil => rfl
    | cons | newline => cases hx
    | eof _ ih => exact ih rfl
  induction h with
  | nil =>
    rintro txt rest rfl h
    cases h
    simp
  | cons _ hlen _ ih =>
    rintro txt rest h hy
    cases h
    have := ih rfl hy
    simp only [length_cons]
    omega
  | newline h _ =>
    rintro txt rest - rfl
    cases hended h
  | eof =>
    intro _ _ h
    cases h

/-- The blanks that may stand before a token. -/
def Blank (bs : List Char) : Prop := ∀ b ∈ bs, b = ' '

theorem blank_nil : Blank [] := fun _ h => by cases h

theorem blank_one : Blank [' '] := by simp [Blank]

theorem yields_mark {t : LexToken} (hc : IsMark c t) (hbs : Blank bs) (rest : List Char) :
    Yields (.text (bs ++ c :: rest)) [t] (.text rest) :=
  .single (hc.readsToken hbs rest) (by simp; omega)

theorem yields_escapeArgumentForReparse (hbs : Blank bs) (v : List Char) (hr : Delimited rest) :
    Yields (.text (bs ++ (escapeArgumentForReparse v ++ rest))) [classifyWord v]
      (.text rest) := by
  refine .single (readsToken_escapeArgumentForReparse hbs v hr) ?_
  obtain ⟨c, txt, heq, -⟩ := head_escapeArgumentForReparse v
  simp [heq]
  omega

theorem yields_fullName (hnm : IsFull name) (hbs : Blank bs) (hr : Delimited rest) :
    Yields (.text (bs ++ (name.toList ++ rest))) [.token name] (.text rest) := by
  have hfacts := fullName_facts hnm
  have := yields_escapeArgumentForReparse hbs name.toList hr
  rwa [hfacts.escaped, hfacts.word] at this

variable (previousLine : Option ℕ)

theorem yields_commandSeparator (line : ℕ) :
    Yields (.text (commandSeparator true previousLine line ++ rest))
      (separatorTokens true previousLine line) (.text (' ' :: rest)) := by
  unfold commandSeparator separatorTokens
  simp only [if_true]
  split_ifs
  · exact (yields_mark .semicolon blank_one (';' :: ' ' :: rest)).append
      (yields_mark .semicolon blank_nil (' ' :: rest))
  · exact yields_mark .semicolon blank_one (' ' :: rest)

/-! ## Lists of commands -/

theorem delimited_cons (txt : List Char) : Delimited (' ' :: txt) := .inr ⟨txt, rfl⟩

theorem delimited_commandSeparator (line : ℕ) (txt : List Char) :
    Delimited (commandSeparator true previousLine line ++ txt) := by
  unfold commandSeparator
  simp only [if_true]
  split_ifs
  · exact delimited_cons _
  · exact delimited_cons _

theorem delimited_renderArguments (arguments : List CommandArgument) (hr : Delimited rest) :
    Delimited (renderArguments arguments ++ rest) := by
  cases arguments with
  | nil => exact hr
  | cons a arguments => exact delimited_cons _

theorem delimited_renderCommands (cs : List ParsedCommand) (hr : Delimited rest) :
    Delimited (renderCommands true previousLine cs ++ rest) := by
  cases cs with
  | nil => exact hr
  | cons c cs =>
    rw [renderCommands, append_assoc, append_assoc]
    exact delimited_commandSeparator ..

theorem renderCommand_ne_nil {c : ParsedCommand} (h : IsFull c.name) : renderCommand c ≠ [] := by
  obtain ⟨name, arguments, start, line⟩ := c
  intro hnil
  exact (fullName_facts h).nonempty (append_eq_nil_iff.mp hnil).1

/-- A list in braces carries nothing and can be written back : its names are full, and neither it nor
the lists in it have assignments. -/
structure Writable (cs : List ParsedCommand) : Prop where
  names : ∀ n ∈ namesOf cs, IsFull n
  carried : carriedOf cs = []

/-- Arguments with full names and no assignments, nested lists included. -/
structure WritableArguments (arguments : List CommandArgument) : Prop where
  names : ∀ n ∈ namesIn arguments, IsFull n
  assignments : arguments.flatMap CommandArgument.assignments = []
  carried : carriedIn arguments = []

variable {cs : List ParsedCommand} {a : EnvironmentAssignment}

theorem writable_cons {start : ℕ} : Writable (.mk name arguments start line :: cs) ↔
      IsFull name ∧ WritableArguments arguments ∧ Writable cs := by
  constructor
  · rintro ⟨hns, hcar⟩
    obtain ⟨ha, hcs⟩ := append_eq_nil_iff.mp hcar
    obtain ⟨has, hinn⟩ := append_eq_nil_iff.mp ha
    simp only [namesOf, collectOf, cons_append, nil_append, mem_cons, mem_append] at hns
    exact ⟨hns _ (.inl rfl), ⟨fun n hn => hns n (.inr (.inl hn)), has, hinn⟩,
      fun n hn => hns n (.inr (.inr hn)), hcs⟩
  · rintro ⟨hnm, ha, hcs⟩
    refine ⟨fun n hn => ?_, append_eq_nil_iff.mpr
      ⟨append_eq_nil_iff.mpr ⟨ha.assignments, ha.carried⟩, hcs.carried⟩⟩
    simp only [namesOf, collectOf, cons_append, nil_append, mem_cons, mem_append] at hn
    rcases hn with rfl | hn | hn
    exacts [hnm, ha.names n hn, hcs.names n hn]

theorem writableArguments_cons_string {v : String} :
    WritableArguments (.string v :: arguments) ↔ WritableArguments arguments :=
  ⟨fun h => ⟨h.names, h.assignments, h.carried⟩, fun h => ⟨h.names, h.assignments, h.carried⟩⟩

theorem writableArguments_cons_commands {commands : List ParsedCommand}
    {asg : List EnvironmentAssignment} {g : CommandGrouping} :
    WritableArguments (.commands (.mk commands asg g) :: arguments) ↔
      asg = [] ∧ Writable commands ∧ WritableArguments arguments := by
  constructor
  · rintro ⟨hns, has, hcar⟩
    obtain ⟨h₁, h₂⟩ := append_eq_nil_iff.mp has
    obtain ⟨h₃, h₄⟩ := append_eq_nil_iff.mp hcar
    exact ⟨h₁, ⟨fun n hn => hns n (mem_append_left _ hn), h₃⟩,
      fun n hn => hns n (mem_append_right _ hn), h₂, h₄⟩
  · rintro ⟨rfl, hc, ha⟩
    exact ⟨fun n hn => (mem_append.mp hn).elim (hc.names n) (ha.names n),
      ha.assignments, append_eq_nil_iff.mpr ⟨hc.carried, ha.carried⟩⟩

/-- A command, from its arguments. -/
theorem yields_renderCommand {start : ℕ} (hnm : IsFull name) (hbs : Blank bs)
    (hr : Delimited rest)
    (ha : Yields (.text (renderArguments arguments ++ rest)) (argumentsTokens arguments)
      (.text rest)) :
    Yields (.text (bs ++ (renderCommand (.mk name arguments start line) ++ rest)))
      (commandTokens (.mk name arguments start line)) (.text rest) := by
  rw [renderCommand, commandTokens, append_assoc]
  exact (yields_fullName hnm hbs (delimited_renderArguments arguments hr)).append ha

/-- The first command, and the others after it. -/
theorem yields_renderCommands_cons (start : ℕ) (hnm : IsFull name)
    (hbs : Blank bs) (hr : Delimited rest) (ha : ∀ {rest : List Char}, Delimited rest →
      Yields (.text (renderArguments arguments ++ rest)) (argumentsTokens arguments) (.text rest))
    (hcs : Yields (.text (renderCommands true (some line) cs ++ rest))
      (commandsTokens true (some line) cs) (.text rest)) :
    Yields (.text (bs ++ (renderCommands false none (.mk name arguments start line :: cs) ++ rest)))
      (commandsTokens false none (.mk name arguments start line :: cs)) (.text rest) := by
  have hst : (false || !(renderCommand (.mk name arguments start line)).isEmpty) = true := by
    simpa [List.isEmpty_iff] using renderCommand_ne_nil (c := .mk name arguments start line) hnm
  have hnx := delimited_renderCommands (some line) cs hr
  rw [renderCommands, commandsTokens, hst]
  simp only [commandSeparator, separatorTokens, append_assoc, Bool.false_eq_true, if_false,
    nil_append]
  exact (yields_renderCommand hnm hbs hnx (ha hnx)).append hcs

mutual

/-- The commands after others. -/
theorem yields_renderCommands : ∀ {cs : List ParsedCommand} (previousLine : Option ℕ)
    {rest : List Char}, Writable cs → Delimited rest →
    Yields (.text (renderCommands true previousLine cs ++ rest))
      (commandsTokens true previousLine cs) (.text rest)
  | [], _, _, _, _ => .nil
  | .mk name arguments startLine line :: cs, previousLine, rest, hcs, hr => by
    obtain ⟨hnm, ha, hcs⟩ := writable_cons.mp hcs
    have hnx := delimited_renderCommands (some line) cs hr
    rw [renderCommands, commandsTokens, Bool.true_or]
    simp only [append_assoc]
    refine (yields_commandSeparator previousLine line).append (Yields.append ?_
      (yields_renderCommands _ hcs hr))
    exact yields_renderCommand hnm blank_one hnx (yields_renderArguments ha hnx)

theorem yields_renderArguments : ∀ {arguments : List CommandArgument} {rest : List Char},
    WritableArguments arguments → Delimited rest →
    Yields (.text (renderArguments arguments ++ rest)) (argumentsTokens arguments) (.text rest)
  | [], _, _, _ => .nil
  | .string value :: arguments, rest, ha, hr => by
    rw [renderArguments, argumentsTokens, List.cons_append, List.append_assoc]
    have ha := writableArguments_cons_string.mp ha
    exact (yields_escapeArgumentForReparse blank_one value.toList
      (delimited_renderArguments arguments hr)).append (yields_renderArguments ha hr)
  | .commands (.mk commands assignments grouping) :: arguments, rest, ha, hr => by
    obtain ⟨rfl, hc, ha⟩ := writableArguments_cons_commands.mp ha
    rw [renderArguments, argumentsTokens, cons_append, append_assoc]
    refine Yields.append ?_ (yields_renderArguments ha hr)
    rw [renderArgument, argumentTokens, renderList, cons_append, cons_append, append_assoc]
    refine Yields.append (yields_mark .openBrace blank_one _) ?_
    exact @yields_nested _ [' '] _ hc blank_one

/-- The commands in braces, after the opening one. -/
theorem yields_nested : ∀ {cs : List ParsedCommand} {bs rest : List Char}, Writable cs → Blank bs →
    Yields (.text (bs ++ (renderCommands false none cs ++ ' ' :: '}' :: rest)))
      (commandsTokens false none cs ++ [.closeBrace]) (.text rest)
  | [], bs, rest, _, hbs => by
    have hblank : Blank (bs ++ [' ']) := fun b hb =>
      (List.mem_append.mp hb).elim (hbs b) (blank_one b)
    have := yields_mark .closeBrace hblank rest
    rwa [List.append_assoc] at this
  | .mk name arguments start line :: cs, bs, rest, hcs, hbs => by
    obtain ⟨hnm, ha, hcs⟩ := writable_cons.mp hcs
    exact (yields_renderCommands_cons start hnm hbs (delimited_cons _)
      (yields_renderArguments ha) (yields_renderCommands _ hcs (delimited_cons _))).append
      (yields_mark .closeBrace blank_one rest)

end

/-! ## Assignments -/

theorem word_fromEquals {v : String} (h : isParseTimeAssignment v.toList = true)
    (hidden : Bool) : (EnvironmentAssignment.fromEquals v hidden).word = v.toList := by
  unfold isParseTimeAssignment at h
  rw [span_eq_takeWhile_dropWhile] at h
  split at h
  · rename_i heq
    have hdp := (Prod.mk.inj heq).2
    have happ := takeWhile_append_dropWhile (p := fun c : Char => c ≠ '=') (l := v.toList)
    rw [hdp] at happ
    simp only [EnvironmentAssignment.word, EnvironmentAssignment.fromEquals, String.toList_ofList,
      hdp, drop_one, tail_cons]
    exact happ
  · cases h

/-- An assignment that was read is written as a word that is read as the same assignment. -/
theorem word_of_isWord (h : a.IsWord) : classifyWord a.word = .equals (String.ofList a.word) ∧
      EnvironmentAssignment.fromEquals (String.ofList a.word) a.hidden = a := by
  obtain ⟨v, hval, ha⟩ := h
  have hw : a.word = v.toList := by
    rw [ha]
    exact word_fromEquals hval a.hidden
  rw [hw, String.ofList_toList]
  exact ⟨by simp [classifyWord, hval], ha.symm⟩

theorem yields_render (ha : a.IsWord) (hbs : Blank bs)
    (hr : Delimited rest) : Yields (.text (bs ++ (a.render ++ rest))) a.tokens (.text rest) := by
  unfold EnvironmentAssignment.render EnvironmentAssignment.tokens
  rw [← (word_of_isWord ha).1]
  split_ifs
  · have hhid : Yields (.text (bs ++ '%' :: ("hidden".toList ++ ' ' ::
        (escapeArgumentForReparse a.word ++ rest)))) [.hidden]
        (.text (' ' :: (escapeArgumentForReparse a.word ++ rest))) :=
      .single (readsToken_hidden hbs _) (by simp; omega)
    exact hhid.append (yields_escapeArgumentForReparse blank_one a.word hr)
  · exact yields_escapeArgumentForReparse hbs a.word hr

theorem yields_assignmentsToTmuxReparseString : ∀ {as : List EnvironmentAssignment}
    {bs rest : List Char}, (∀ a ∈ as, a.IsWord) → as ≠ [] → Blank bs → Delimited rest →
    Yields (.text (bs ++ (assignmentsToTmuxReparseString as ++ rest))) (assignmentTokens as)
      (.text rest)
  | [], _, _, _, hne, _, _ => absurd rfl hne
  | [a], bs, rest, has, _, hbs, hr => yields_render (has a List.mem_cons_self) hbs hr
  | a :: b :: as, bs, rest, has, _, hbs, hr => by
    rw [assignmentsToTmuxReparseString, assignmentTokens]
    · simp only [List.append_assoc]
      refine (yields_render (has a List.mem_cons_self) hbs (delimited_cons _)).append ?_
      refine Yields.append (yields_mark .semicolon blank_one _) ?_
      exact @yields_assignmentsToTmuxReparseString (b :: as) [' '] _
        (fun c hc => has c (List.mem_cons_of_mem _ hc)) (by simp) blank_one hr
    all_goals simp

theorem assignmentsToTmuxReparseString_ne_nil : ∀ {as : List EnvironmentAssignment}, as ≠ [] →
    assignmentsToTmuxReparseString as ≠ []
  | [], h => absurd rfl h
  | a :: as, _ => by
    have hrender : a.render ≠ [] := by
      obtain ⟨c, txt, heq, -⟩ := head_escapeArgumentForReparse a.word
      unfold EnvironmentAssignment.render
      split_ifs <;> simp [heq]
    cases as with
    | nil => exact hrender
    | cons b as =>
      rw [assignmentsToTmuxReparseString]
      · simp [hrender]
      · simp

/-! ## Texts without line ends -/

/-- No line ends in a text, so that nothing in it is joined or changed before it is read. -/
def NoBreaks (txt : List Char) : Prop := ∀ c ∈ txt, c ≠ '\n' ∧ c ≠ '\r'

instance : DecidablePred NoBreaks := fun txt => List.decidableBAll _ txt

theorem noBreaks_nil : NoBreaks [] := by decide

theorem noBreaks_append {ys : List Char} : NoBreaks (xs ++ ys) ↔ NoBreaks xs ∧ NoBreaks ys :=
  forall_mem_append

theorem noBreaks_cons {c : Char} : NoBreaks (c :: xs) ↔ (c ≠ '\n' ∧ c ≠ '\r') ∧ NoBreaks xs := by
  simp only [NoBreaks, mem_cons, forall_eq_or_imp]

theorem noBreaks_flatMap {α : Type} {f : α → List Char} {l : List α} (h : ∀ a ∈ l, NoBreaks (f a)) :
    NoBreaks (l.flatMap f) := by
  intro c hc
  obtain ⟨a, ha, hc⟩ := mem_flatMap.mp hc
  exact h a ha c hc

theorem noBreaks_octalDigits : ∀ n < 128, NoBreaks (octalDigits n) := by
  decide +kernel

theorem noBreaks_escapeLineChar (c : Char) : NoBreaks (escapeLineChar c) := by
  unfold escapeLineChar escapeControlArgumentChar
  split_ifs with hn hr ht hb h₁ h₂ h₃ h₄ h₅ hctl
  any_goals
    decide
  · have hlt : c.toNat < 128 := by
      simp only [isAsciiControl, Bool.or_eq_true, decide_eq_true_eq] at hctl
      omega
    exact noBreaks_cons.mpr ⟨by decide, noBreaks_octalDigits c.toNat hlt⟩
  · simp [NoBreaks, hn, hr]

theorem noBreaks_escapeUnquotedChar (first : Bool) (c : Char) :
    NoBreaks (escapeUnquotedChar first c) := by
  unfold escapeUnquotedChar
  split_ifs with htil hspec
  · decide
  · have hc : c ≠ '\n' ∧ c ≠ '\r' :=
      ⟨by rintro rfl; exact absurd hspec (by decide), by rintro rfl; exact absurd hspec (by decide)⟩
    exact noBreaks_cons.mpr ⟨by decide, noBreaks_cons.mpr ⟨hc, noBreaks_nil⟩⟩
  · exact noBreaks_escapeLineChar c

theorem noBreaks_escapeDoubleQuotedFrom : ∀ (first : Bool) (v : List Char),
    NoBreaks (escapeDoubleQuotedFrom first v)
  | _, [] => noBreaks_nil
  | first, c :: v => by
    refine noBreaks_append.mpr ⟨?_, noBreaks_escapeDoubleQuotedFrom false v⟩
    unfold escapeDoubleQuotedChar
    split_ifs
    any_goals
      decide
    exact noBreaks_escapeLineChar c

theorem noBreaks_escapeUnquotedArgument (v : List Char) : NoBreaks (escapeUnquotedArgument v) := by
  cases v with
  | nil => exact noBreaks_nil
  | cons c v =>
    exact noBreaks_append.mpr ⟨noBreaks_escapeUnquotedChar true c,
      noBreaks_flatMap fun c _ => noBreaks_escapeUnquotedChar false c⟩

/-- In quotes. -/
theorem noBreaks_quoted {q : Char} (hq : q ≠ '\n' ∧ q ≠ '\r') (h : NoBreaks txt) :
    NoBreaks (q :: (txt ++ [q])) :=
  noBreaks_cons.mpr ⟨hq, noBreaks_append.mpr ⟨h, noBreaks_cons.mpr ⟨hq, noBreaks_nil⟩⟩⟩

theorem noBreaks_escapeArgumentForReparse (v : List Char) :
    NoBreaks (escapeArgumentForReparse v) := by
  have hdbl := noBreaks_quoted (q := '"') (by decide) (noBreaks_escapeDoubleQuotedFrom true v)
  unfold escapeArgumentForReparse escapeArgument
  dsimp only
  split_ifs
  · exact hdbl
  · decide
  · exact noBreaks_escapeUnquotedArgument v
  · exact hdbl
  · exact noBreaks_quoted (by decide) (noBreaks_flatMap fun c _ => noBreaks_escapeLineChar c)
  · exact noBreaks_escapeUnquotedArgument v

theorem noBreaks_name (h : IsFull name) : NoBreaks name.toList := by
  have := noBreaks_escapeArgumentForReparse name.toList
  rwa [(fullName_facts h).escaped] at this

theorem noBreaks_commandSeparator (started : Bool) (previousLine : Option ℕ) (line : ℕ) :
    NoBreaks (commandSeparator started previousLine line) := by
  unfold commandSeparator
  split_ifs <;> decide

theorem noBreaks_assignmentsToTmuxReparseString : ∀ as : List EnvironmentAssignment,
    NoBreaks (assignmentsToTmuxReparseString as)
  | [] => noBreaks_nil
  | [a] => noBreaks_render a
  | a :: b :: as => by
    rw [assignmentsToTmuxReparseString]
    · exact noBreaks_append.mpr ⟨noBreaks_append.mpr ⟨noBreaks_render a, by decide⟩,
        noBreaks_assignmentsToTmuxReparseString (b :: as)⟩
    · simp
where
  noBreaks_render (a : EnvironmentAssignment) : NoBreaks a.render := by
    unfold EnvironmentAssignment.render
    split_ifs
    · exact noBreaks_append.mpr ⟨by decide, noBreaks_escapeArgumentForReparse _⟩
    · exact noBreaks_escapeArgumentForReparse _

mutual

theorem noBreaks_renderCommands : ∀ {cs : List ParsedCommand} (started : Bool)
    (previousLine : Option ℕ), Writable cs → NoBreaks (renderCommands started previousLine cs)
  | [], _, _, _ => noBreaks_nil
  | .mk name arguments _ line :: cs, started, previousLine, hcs => by
    obtain ⟨hnm, ha, hcs⟩ := writable_cons.mp hcs
    exact noBreaks_append.mpr ⟨noBreaks_append.mpr ⟨noBreaks_commandSeparator _ _ _,
      noBreaks_append.mpr ⟨noBreaks_name hnm, noBreaks_renderArguments ha⟩⟩,
      noBreaks_renderCommands _ _ hcs⟩

theorem noBreaks_renderArguments : ∀ {arguments : List CommandArgument},
    WritableArguments arguments → NoBreaks (renderArguments arguments)
  | [], _ => noBreaks_nil
  | .string value :: arguments, ha =>
    noBreaks_cons.mpr ⟨by decide, noBreaks_append.mpr ⟨noBreaks_escapeArgumentForReparse _,
      noBreaks_renderArguments (writableArguments_cons_string.mp ha)⟩⟩
  | .commands (.mk commands assignments grouping) :: arguments, ha => by
    obtain ⟨rfl, hc, ha⟩ := writableArguments_cons_commands.mp ha
    refine noBreaks_cons.mpr ⟨by decide, noBreaks_append.mpr ⟨?_, noBreaks_renderArguments ha⟩⟩
    refine noBreaks_cons.mpr ⟨by decide, noBreaks_cons.mpr ⟨by decide, noBreaks_append.mpr
      ⟨?_, by decide⟩⟩⟩
    exact noBreaks_renderCommands _ _ hc

end

/-! ## A lexer at the start of a text -/

theorem normalizeNewlines_append (h : NoBreaks xs) (ys : List Char) :
    normalizeNewlines (xs ++ ys) = xs ++ normalizeNewlines ys := by
  induction xs with
  | nil => rfl
  | cons c xs ih =>
    obtain ⟨hc, hxs⟩ := noBreaks_cons.mp h
    rw [cons_append, normalizeNewlines, ih hxs, cons_append]
    · intro _ hc'
      exact absurd hc' hc.2
    · exact hc.2

theorem cook_append (h : NoBreaks xs) (hr : Delimited rest) (n : ℕ) :
    cook n (xs ++ rest) = List.replicate n '\\' ++ (xs ++ cook 0 rest) := by
  induction xs generalizing n with
  | nil => rcases hr with rfl | ⟨txt, rfl⟩ <;> simp [cook]
  | cons c xs ih =>
    obtain ⟨hc, hxs⟩ := noBreaks_cons.mp h
    rw [cons_append, cook]
    split_ifs with hb hn
    · rw [ih hxs, hb, replicate_succ', append_assoc]
      rfl
    · exact absurd hn.1 hc.1
    · rw [ih hxs]
      rfl

section

variable {parser : CommandParser} (hwindows : parser.windows = false)

include hwindows

theorem has_new_cook (txt : List Char) :
    (Lexer.new (String.ofList txt) parser).Has (cook 0 (normalizeNewlines txt)) := by
  refine ⟨?_, rfl, hwindows⟩
  simp [Lexer.new, withHashFormatMode, Lexer.text]

/-- A text without line ends is read as it is. -/
theorem has_new (h : NoBreaks txt) : (Lexer.new (String.ofList txt) parser).Has txt := by
  have hnormal := normalizeNewlines_append h []
  have hcook := cook_append h (.inl rfl) 0
  have hhas := has_new_cook hwindows txt
  simp only [append_nil, normalizeNewlines, cook, replicate_zero, nil_append] at hnormal hcook
  rwa [hnormal, hcook] at hhas

/-- Up to a blank it is, whatever follows. -/
theorem has_new_append (h : NoBreaks txt) (rest : List Char) :
    (Lexer.new (String.ofList (txt ++ ' ' :: rest)) parser).Has
      (txt ++ ' ' :: cook 0 (normalizeNewlines rest)) := by
  have hhas := has_new_cook hwindows (txt ++ ' ' :: rest)
  rw [normalizeNewlines_append h, normalizeNewlines, cook_append h (delimited_cons _)] at hhas
  · simpa [cook] using hhas
  all_goals simp

end

end Rmux
