import Mathlib.Data.List.TakeWhile
import Mathlib.Logic.Relation
import Rmux.CommandStock

/-!
# Parsing what was written

A list that was parsed is written as text and parsed again. With full names everywhere the text is
read back (`parseAll_toTmuxReparseString`), and only the limit on the length of a command can stop
it. A name that is not full can only stand in braces behind an alias, and is resolved the second
time : up to the first such name the text is read as it was meant (`Fixes`), and the command that
comes next has a full name (`Begins`). So `reparse_iff` says exactly when the list comes back.
-/

namespace Rmux

open Lexer GrammarParser List Except Nat

/-! ## What is read is kept -/

section Monotone

variable {active : Bool} {g g' : GrammarParser}

theorem names_prefix_pushCommand (p : ParsedCommands) (c : ParsedCommand) :
    p.names ++ c.name :: namesIn c.arguments = (p.pushCommand c).names := by
  rw [ParsedCommands.names, collect_pushCommand, append_assoc]
  rfl

/-- The names that were read stay the first ones. -/
theorem names_prefix_parseStatements : ∀ {fuel : ℕ} {stops : List ConditionStop} {brace : Bool}
    {acc p : ParsedCommands} {g g' : GrammarParser},
    parseStatements fuel stops brace active acc g = .ok (p, g') → acc.names <+: p.names
  | 0, _, _, _, _, _, _, h => absurd h fail_ne_ok
  | fuel + 1, stops, brace, acc, p, g, g', h => by
    obtain ⟨⟨token, g₁⟩, -, h⟩ := bind_eq_ok h
    have ha : ∀ a : Option EnvironmentAssignment,
        (a.elim acc acc.pushAssignment).names = acc.names := by
      rintro (_ | a)
      · rfl
      · exact collect_pushAssignment _ acc a
    cases token with
    | eof =>
      cases h
      exact prefix_refl _
    | closeBrace | elseDirective | elifDirective | endifDirective =>
      dsimp only at h
      split_ifs at h
      · cases h
        exact prefix_refl _
      · exact absurd h fail_ne_ok
    | newline | semicolon =>
      obtain ⟨g₂, -, h⟩ := bind_eq_ok h
      exact names_prefix_parseStatements h
    | hidden =>
      obtain ⟨⟨assignment, g₂⟩, -, h⟩ := bind_eq_ok h
      exact ha assignment ▸ names_prefix_parseStatements h
    | equals value =>
      obtain ⟨⟨⟨assignment, command⟩, g₂⟩, -, h⟩ := bind_eq_ok h
      refine List.IsPrefix.trans ?_ (names_prefix_parseStatements h)
      rw [← ha assignment]
      split_ifs
      · cases command with
        | none => exact prefix_refl _
        | some c => exact ⟨_, names_prefix_pushCommand _ c⟩
      · exact prefix_refl _
    | ifDirective =>
      obtain ⟨⟨selected, g₂⟩, -, h⟩ := bind_eq_ok h
      refine List.IsPrefix.trans ?_ (names_prefix_parseStatements h)
      exact ⟨_, (collect_append _ acc selected).symm⟩
    | token value =>
      obtain ⟨⟨c, g₂⟩, -, h⟩ := bind_eq_ok h
      refine List.IsPrefix.trans ?_ (names_prefix_parseStatements h)
      split_ifs
      · exact ⟨_, names_prefix_pushCommand acc c⟩
      · exact prefix_refl _
    | openBrace | format value => exact absurd h fail_ne_ok

theorem names_prefix_parseArguments : ∀ {fuel : ℕ} {acc args : List CommandArgument}
    {g g' : GrammarParser}, parseArguments fuel active acc g = .ok (args, g') →
    namesIn acc <+: namesIn args
  | 0, _, _, _, _, h => absurd h fail_ne_ok
  | fuel + 1, acc, args, g, g', h => by
    obtain ⟨⟨token, g₁⟩, -, h⟩ := bind_eq_ok h
    have hmore : ∀ a : CommandArgument, namesIn acc <+: namesIn (acc ++ [a]) :=
      fun a => ⟨namesIn [a], (collectIn_append _ acc [a]).symm⟩
    dsimp only at h
    split at h
    · obtain ⟨g₂, -, h⟩ := bind_eq_ok h
      exact (hmore _).trans (names_prefix_parseArguments h)
    · obtain ⟨g₂, -, h⟩ := bind_eq_ok h
      exact (hmore _).trans (names_prefix_parseArguments h)
    · obtain ⟨g₂, -, h⟩ := bind_eq_ok h
      obtain ⟨⟨nested, g₃⟩, -, h⟩ := bind_eq_ok h
      obtain ⟨g₄, -, h⟩ := bind_eq_ok h
      exact (hmore _).trans (names_prefix_parseArguments h)
    all_goals first
      | exact absurd h fail_ne_ok
      | (cases h
         exact prefix_refl _)

end Monotone

/-! ## A command that is read in part -/

section Partial

variable {k fuel : ℕ} {g g' : GrammarParser} {ts : List LexToken} {y : Remaining}

theorem parseStatements_token_inv {name : String} {stops : List ConditionStop} {brace : Bool}
    {acc p : ParsedCommands} (h : Sees k g (.token name :: ts) y)
    (hp : parseStatements fuel stops brace true acc g = .ok (p, g')) :
    ∃ fuel₁ g₁ arguments g₂, fuel = fuel₁ + 2 ∧ Sees k g₁ ts y ∧
      parseArguments fuel₁ true [] g₁ = .ok (arguments, g₂) ∧
      acc.names ++ name :: namesIn arguments <+: p.names := by
  cases fuel with
  | zero => exact absurd hp fail_ne_ok
  | succ fuel =>
    obtain ⟨g₁, hpk, hg₁⟩ := h.peek
    rw [parseStatements, hpk, ok_bind] at hp
    obtain ⟨⟨c, g₃⟩, hcmd, hp⟩ := bind_eq_ok hp
    cases fuel with
    | zero => exact absurd hcmd fail_ne_ok
    | succ fuel =>
      obtain ⟨line, g₂, hexp, hg₂⟩ := hg₁.expectTokenWithLine "expected command name"
      rw [parseCommand, hexp, ok_bind] at hcmd
      obtain ⟨⟨arguments, g₄⟩, ha, hcmd⟩ := bind_eq_ok hcmd
      refine ⟨fuel, g₂, arguments, g₄, rfl, hg₂, ha, ?_⟩
      have hc : c.name = name ∧ c.arguments = arguments := by
        dsimp only at hcmd
        split at hcmd
        · cases hcmd
          exact ⟨rfl, rfl⟩
        · obtain ⟨⟨t, g₅⟩, -, hcmd⟩ := bind_eq_ok hcmd
          cases hcmd
          exact ⟨rfl, rfl⟩
      have hpu := names_prefix_pushCommand acc c
      rw [hc.1, hc.2] at hpu
      rw [hpu]
      exact names_prefix_parseStatements hp

theorem parseArguments_openBrace_inv {acc arguments : List CommandArgument}
    (h : Sees k g (.openBrace :: ts) y)
    (hp : parseArguments fuel true acc g = .ok (arguments, g')) :
    ∃ fuel₁ g₁ nested g₂, fuel = fuel₁ + 2 ∧ Sees (k + 1) g₁ ts y ∧
      parseStatements fuel₁ [] true true (.withGrouping g₁.grouping) g₁ = .ok (nested, g₂) ∧
      namesIn acc ++ nested.names <+: namesIn arguments := by
  cases fuel with
  | zero => exact absurd hp fail_ne_ok
  | succ fuel =>
    obtain ⟨g₁, hpk, hg₁⟩ := h.peek
    obtain ⟨g₂, hadv, hg₂⟩ := hg₁.advance
    rw [parseArguments, hpk, ok_bind] at hp
    simp only [hadv, ok_bind] at hp
    obtain ⟨⟨nested, g₃⟩, hunt, hp⟩ := bind_eq_ok hp
    obtain ⟨g₄, -, hp⟩ := bind_eq_ok hp
    cases fuel with
    | zero => exact absurd hunt fail_ne_ok
    | succ fuel =>
      rw [parseUntil] at hunt
      split_ifs at hunt
      · split at hunt <;> cases hunt
      · obtain ⟨⟨commands, g₅⟩, hstmts, hunt⟩ := bind_eq_ok hunt
        cases hunt
        refine ⟨fuel, { g₂ with depth := g₂.depth + 1 }, nested, g₅, rfl,
          ⟨congrArg (· + 1) hg₂.depth, hg₂.mode, hg₂.view⟩, hstmts, ?_⟩
        have hpre := names_prefix_parseArguments hp
        rw [namesIn, collectIn_append] at hpre
        simpa [collectIn, collectArgument, ParsedCommands.names] using hpre

end Partial

/-! ## The first name that is not full -/

/-- The names up to the first that is not full. -/
def fullPrefix (names : List String) : List String := names.takeWhile fun n => decide (IsFull n)

theorem fullPrefix_cons {x : String} (h : IsFull x) (xs : List String) :
    fullPrefix (x :: xs) = x :: fullPrefix xs :=
  takeWhile_cons_of_pos (decide_eq_true h)

theorem fullPrefix_cons_of_not {x : String} (h : ¬IsFull x) (xs : List String) :
    fullPrefix (x :: xs) = [] :=
  takeWhile_cons_of_neg (by simpa using h)

variable {xs : List String} {p : ParsedCommands} {ns : List String} {trace : List (String × Origin)}

theorem fullPrefix_append (h : ∀ n ∈ xs, IsFull n) (ys : List String) :
    fullPrefix (xs ++ ys) = xs ++ fullPrefix ys :=
  takeWhile_append_of_pos fun n hn => decide_eq_true (h n hn)

theorem fullPrefix_eq_self (h : ∀ n ∈ xs, IsFull n) : fullPrefix xs = xs :=
  takeWhile_eq_self_iff.mpr fun n hn => decide_eq_true (h n hn)

theorem exists_bad_right {ys : List String} (hxs : ∀ n ∈ xs, IsFull n)
    (h : ∃ n ∈ xs ++ ys, ¬IsFull n) : ∃ n ∈ ys, ¬IsFull n := by
  obtain ⟨n, hn, hnot⟩ := h
  rcases mem_append.mp hn with hn | hn
  · exact absurd (hxs n hn) hnot
  · exact ⟨n, hn, hnot⟩

theorem fullPrefix_append_of_not (h : ∃ n ∈ xs, ¬IsFull n) (ys : List String) :
    fullPrefix (xs ++ ys) = fullPrefix xs := by
  induction xs with
  | nil => simp at h
  | cons x xs ih =>
    by_cases hx : IsFull x
    · have hxs : ∃ n ∈ xs, ¬IsFull n := exists_bad_right (forall_mem_singleton.mpr hx) h
      rw [cons_append, fullPrefix_cons hx, fullPrefix_cons hx, ih hxs]
    · rw [cons_append, fullPrefix_cons_of_not hx, fullPrefix_cons_of_not hx]

theorem length_fullPrefix_le {ys : List String} (h : fullPrefix xs <+: ys) :
    (fullPrefix xs).length ≤ (fullPrefix ys).length := by
  obtain ⟨r, rfl⟩ := h
  have hf : ∀ n ∈ fullPrefix xs, IsFull n :=
    fun n hn => by simpa using mem_takeWhile_imp hn
  rw [fullPrefix_append hf, length_append]
  exact le_add_right _ _

theorem exists_first_bad : ∀ {cs : List ParsedCommand}, carriedOf cs = [] →
    (∃ n ∈ namesOf cs, ¬IsFull n) → ∃ before c after, cs = before ++ c :: after ∧ Writable before ∧
      carriedOf [c] = [] ∧ ∃ n ∈ namesOf [c], ¬IsFull n
  | [], _, ⟨n, hn, _⟩ => absurd hn List.not_mem_nil
  | .mk name args start line :: cs, hcar, hbad => by
    have hspl := collectOf_append (fun _ args => args.flatMap CommandArgument.assignments)
      [.mk name args start line] cs
    obtain ⟨hc, hcs⟩ := append_eq_nil_iff.mp (hspl.symm.trans hcar)
    by_cases hfst : ∃ n ∈ namesOf [.mk name args start line], ¬IsFull n
    · exact ⟨[], _, cs, rfl, ⟨fun n hn => absurd hn not_mem_nil, rfl⟩, hc, hfst⟩
    · push Not at hfst
      have hr : ∃ n ∈ namesOf cs, ¬IsFull n := by
        refine exists_bad_right hfst ?_
        rw [← collectOf_append]
        exact hbad
      obtain ⟨before, c, after, rfl, hbef, hc', hn⟩ := exists_first_bad hcs hr
      have hwr : Writable [.mk name args start line] := ⟨hfst, hc⟩
      obtain ⟨hnm, ha, -⟩ := writable_cons.mp hwr
      exact ⟨.mk name args start line :: before, c, after, rfl,
        writable_cons.mpr ⟨hnm, ha, hbef⟩, hc', hn⟩

theorem exists_first_bad_argument : ∀ {args : List CommandArgument},
    args.flatMap CommandArgument.assignments = [] → carriedIn args = [] →
    (∃ n ∈ namesIn args, ¬IsFull n) → ∃ before commands grouping after,
      args = before ++ .commands (.mk commands [] grouping) :: after ∧
      WritableArguments before ∧ carriedOf commands = [] ∧ ∃ n ∈ namesOf commands, ¬IsFull n
  | [], _, _, ⟨n, hn, _⟩ => absurd hn List.not_mem_nil
  | .string value :: args, has, hcar, hbad => by
    obtain ⟨before, commands, grouping, after, rfl, hbef, hc, hn⟩ :=
      @exists_first_bad_argument args has hcar hbad
    exact ⟨.string value :: before, commands, grouping, after, rfl,
      writableArguments_cons_string.mpr hbef, hc, hn⟩
  | .commands (.mk commands asg grouping) :: args, has, hcar, hbad => by
    obtain ⟨h₁, h₂⟩ := append_eq_nil_iff.mp has
    obtain ⟨h₃, h₄⟩ := append_eq_nil_iff.mp hcar
    obtain rfl : asg = [] := h₁
    by_cases hfst : ∃ n ∈ namesOf commands, ¬IsFull n
    · exact ⟨[], commands, grouping, args, rfl,
        ⟨fun n hn => absurd hn not_mem_nil, rfl, rfl⟩, h₃, hfst⟩
    · push Not at hfst
      have hr : ∃ n ∈ namesIn args, ¬IsFull n := exists_bad_right hfst hbad
      obtain ⟨before, commands', grouping', after, rfl, hbef, hc, hn⟩ :=
        exists_first_bad_argument h₂ h₄ hr
      exact ⟨.commands (.mk commands [] grouping) :: before, commands', grouping', after, rfl,
        writableArguments_cons_commands.mpr ⟨rfl, ⟨hfst, h₃⟩, hbef⟩, hc, hn⟩

/-! ## The text before it -/

/-- Whether anything is written after these commands, and the line of the last one. -/
def lastLine : Bool → Option ℕ → List ParsedCommand → Bool × Option ℕ
  | started, previousLine, [] => (started, previousLine)
  | _, _, c :: cs => lastLine true (some c.line) cs

theorem renderCommands_append : ∀ {before : List ParsedCommand} (started : Bool)
    (prev : Option ℕ) (cs : List ParsedCommand), Writable before →
    renderCommands started prev (before ++ cs) =
      renderCommands started prev before ++
        renderCommands (lastLine started prev before).1
          (lastLine started prev before).2 cs
  | [], _, _, _, _ => rfl
  | .mk name arguments startLine line :: before, started, prev, cs, hbef => by
    obtain ⟨hnm, ha, hbef⟩ := writable_cons.mp hbef
    have hst : (started || !(renderCommand (.mk name arguments startLine line)).isEmpty) = true := by
      have := renderCommand_ne_nil (c := .mk name arguments startLine line) hnm
      simp [this]
    rw [cons_append, renderCommands, renderCommands, hst,
      renderCommands_append true _ cs hbef, ← append_assoc]
    rfl

theorem renderArguments_append (xs ys : List CommandArgument) :
    renderArguments (xs ++ ys) = renderArguments xs ++ renderArguments ys := by
  induction xs with
  | nil => rfl
  | cons x xs ih => simp [renderArguments, ih]

theorem lastLine_true (prev : Option ℕ) (before : List ParsedCommand) :
    (lastLine true prev before).1 = true := by
  induction before generalizing prev with
  | nil => rfl
  | cons c before ih => exact ih _

/-- The text of the commands before one on this line, with the separator. -/
def textBefore (started : Bool) (before : List ParsedCommand) (line : ℕ) : List Char :=
  renderCommands started none before ++
    commandSeparator (lastLine started none before).1 (lastLine started none before).2 line

def tokensBefore (started : Bool) (before : List ParsedCommand) (line : ℕ) : List LexToken :=
  commandsTokens started none before ++
    separatorTokens (lastLine started none before).1 (lastLine started none before).2 line

variable {before : List ParsedCommand} {k : ℕ}

theorem yields_textBefore (hbef : Writable before) (started : Bool) (line : ℕ) {bs : List Char}
    (hbs : Blank bs) (hst : started = true → bs = []) (R : List Char) :
    ∃ bs', Blank bs' ∧ Yields (.text (bs ++ (textBefore started before line ++ R)))
      (tokensBefore started before line) (.text (bs' ++ R)) := by
  unfold textBefore tokensBefore
  rw [append_assoc]
  cases started with
  | true =>
    obtain rfl := hst rfl
    rw [lastLine_true]
    exact ⟨[' '], blank_one, (yields_renderCommands _ hbef (delimited_commandSeparator ..)).append
      (yields_commandSeparator _ line)⟩
  | false =>
    cases before with
    | nil => exact ⟨bs, hbs, .nil⟩
    | cons c before =>
      obtain ⟨name, args, start, line'⟩ := c
      obtain ⟨hnm, ha, hbef⟩ := writable_cons.mp hbef
      rw [lastLine, lastLine_true]
      exact ⟨[' '], blank_one, (yields_renderCommands_cons start hnm hbs (delimited_commandSeparator ..)
        (yields_renderArguments ha)
        (yields_renderCommands _ hbef (delimited_commandSeparator ..))).append
        (yields_commandSeparator _ line)⟩

theorem length_tokensBefore_le (hbef : Writable before) (started : Bool) (line : ℕ) :
    (tokensBefore started before line).length ≤ (textBefore started before line).length := by
  obtain ⟨bs, -, h⟩ := yields_textBefore hbef started line blank_nil (fun _ => rfl) []
  have := h.length_le rfl rfl
  simp only [length_append, length_nil] at this
  omega

theorem separatorTokens_true (prev : Option ℕ) (line : ℕ) :
    ∃ ts, separatorTokens true prev line = .semicolon :: ts := by
  unfold separatorTokens
  simp only [if_true]
  split_ifs <;> exact ⟨_, rfl⟩

/-- After something else there is a semicolon first. -/
theorem tokensBefore_true (before : List ParsedCommand) (line : ℕ) :
    ∃ ts, tokensBefore true before line = .semicolon :: ts := by
  unfold tokensBefore
  rw [lastLine_true]
  cases before with
  | nil =>
    obtain ⟨ts, hts⟩ := separatorTokens_true (lastLine true none []).2 line
    exact ⟨ts, hts⟩
  | cons c before =>
    exact ⟨_, rfl⟩

/-- The parser has read the commands before one. -/
theorem parseStatements_before (hbef : Writable before) {started : Bool} {line fuel : ℕ}
    {g g' : GrammarParser} {stops : List ConditionStop} {brace : Bool} {acc : ParsedCommands}
    {ts : List LexToken} {y : Remaining} (hnest : k + nestingOf before ≤ maxNestingDepth)
    (h : Sees k g (tokensBefore started before line ++ ts) y)
    (hfu : 2 * (tokensBefore started before line).length + 3 ≤ fuel)
    (hp : parseStatements fuel stops brace true acc g = .ok (p, g')) :
    ∃ acc' fuel' g₁, parseStatements fuel' stops brace true acc' g₁ = .ok (p, g') ∧
      acc'.names = acc.names ++ namesOf before ∧
      fuel ≤ fuel' + (tokensBefore started before line).length ∧ Sees k g₁ ts y := by
  unfold tokensBefore at h hfu ⊢
  rw [append_assoc] at h
  rw [length_append] at hfu ⊢
  cases before with
  | nil =>
    obtain ⟨g₁, heq, hg₁⟩ := parseStatements_separatorTokens fuel h (by omega) stops brace true acc
    exact ⟨acc, _, g₁, heq ▸ hp, (append_nil _).symm, by omega, hg₁⟩
  | cons c before =>
    -- after a command there is a semicolon, at which its arguments end
    rw [lastLine, lastLine_true] at h hfu ⊢
    obtain ⟨ts', hts'⟩ := separatorTokens_true (lastLine true (some c.line) before).2 line
    have hsp := h
    rw [hts', cons_append] at hsp
    obtain ⟨acc', fuel', g₁, heq, hbare, -, hle, hg₁⟩ := parseStatements_commandsTokens fuel
      stops brace acc hbef hnest (.inr (.inl rfl)) hsp (by omega)
    rw [← cons_append, ← hts'] at hg₁
    obtain ⟨g₂, heq₂, hg₂⟩ := parseStatements_separatorTokens fuel' hg₁ (by omega) stops
      brace true acc'
    refine ⟨acc', _, g₂, heq₂ ▸ heq ▸ hp, ?_, by omega, hg₂⟩
    rw [names_eq, names_eq, namesOf, ← collectOf_bareOf (fun _ _ => rfl) acc'.commands, hbare,
      ← bareOf_append, collectOf_bareOf (fun _ _ => rfl), collectOf_append]

/-! ## Names that a text fixes -/

/-- However a text that starts with `X` goes on, if it is read as the commands of a list then their
names start with `ns`. -/
def Fixes (k : ℕ) (started : Bool) (X : List Char) (ns : List String) : Prop :=
  ∃ T, (started = true → ∃ T', T = LexToken.semicolon :: T') ∧
    ∀ {b Z : List Char}, Blank b → (started = true → b = []) →
      ∃ rest, Yields (.text (b ++ (X ++ Z))) T (.text rest) ∧
        ∀ {g g' : GrammarParser} {fuel : ℕ} {stops : List ConditionStop} {brace : Bool}
          {acc p : ParsedCommands}, Sees k g T (.text rest) → 2 * X.length + 3 ≤ fuel →
          parseStatements fuel stops brace true acc g = .ok (p, g') → acc.names ++ ns <+: p.names

/-- A text up to a name that is not full. -/
theorem fixes_before (hbef : Writable before) (started : Bool) (line : ℕ)
    (hnest : k + nestingOf before ≤ maxNestingDepth) :
    Fixes k started (textBefore started before line) (namesOf before) := by
  refine ⟨tokensBefore started before line, ?_, fun {bs Z} hbs hst => ?_⟩
  · rintro rfl
    exact tokensBefore_true before line
  · obtain ⟨bs', -, hy⟩ := yields_textBefore hbef started line hbs hst Z
    have hlen := length_tokensBefore_le hbef started line
    refine ⟨bs' ++ Z, hy, fun {g g' fuel stops brace acc p} hg hfu hp => ?_⟩
    rw [← append_nil (tokensBefore _ _ _)] at hg
    obtain ⟨acc', fuel', g₁, hp', hns, -, -⟩ :=
      parseStatements_before hbef hnest hg (by omega) hp
    rw [← hns]
    exact names_prefix_parseStatements hp'

/-- A text up to a nested list, and what that one fixes. -/
theorem fixes_nested (hbef : Writable before) (started : Bool) {name : String}
    (hnm : IsFull name) {arguments : List CommandArgument}
    (harguments : WritableArguments arguments) (line : ℕ)
    (hnest : k + nestingOf before ≤ maxNestingDepth)
    (hnest' : k + nestingIn arguments ≤ maxNestingDepth) {X : List Char}
    (hfixes : Fixes (k + 1) false X ns) : Fixes k started (textBefore started before line ++
      (name.toList ++ (renderArguments arguments ++ (' ' :: '{' :: ' ' :: X))))
      (namesOf before ++ name :: (namesIn arguments ++ ns)) := by
  have hy : ∀ {bs Z : List Char}, Blank bs → (started = true → bs = []) →
      Yields (.text (bs ++ (textBefore started before line ++
        (name.toList ++ (renderArguments arguments ++ (' ' :: '{' :: ' ' :: X))) ++ Z)))
        (tokensBefore started before line ++
          (.token name :: (argumentsTokens arguments ++ [.openBrace])))
        (.text (' ' :: (X ++ Z))) := by
    intro bs Z hbs hst
    obtain ⟨bs', hbs', hy⟩ := yields_textBefore hbef started line hbs hst
      (name.toList ++ (renderArguments arguments ++ (' ' :: '{' :: ' ' :: (X ++ Z))))
    have hcmd := yields_fullName hnm hbs'
      (delimited_renderArguments arguments (delimited_cons ('{' :: ' ' :: (X ++ Z))))
    have ha := yields_renderArguments harguments (delimited_cons ('{' :: ' ' :: (X ++ Z)))
    have := hy.append (hcmd.append (ha.append (yields_mark .openBrace blank_one _)))
    simpa only [List.append_assoc, List.cons_append, List.nil_append] using this
  refine ⟨tokensBefore started before line ++
    (.token name :: (argumentsTokens arguments ++ [.openBrace])), ?_,
    fun {bs Z} hbs hst => ⟨_, hy hbs hst, ?_⟩⟩
  · rintro rfl
    obtain ⟨ts, hts⟩ := tokensBefore_true before line
    exact ⟨_, congrArg (· ++ _) hts⟩
  · intro g g' fuel stops brace acc p hg hfu hp
    have hlen := (hy blank_nil (fun _ => rfl) (Z := [])).length_le rfl rfl
    simp only [List.length_append, List.length_cons, List.length_nil, Nat.add_zero,
      Nat.zero_add] at hlen hfu
    obtain ⟨acc', fuel₁, g₁, hparse₁, hns, hle₁, hg₁⟩ :=
      parseStatements_before hbef hnest hg (by omega) hp
    obtain ⟨fuel₂, g₂, read, g₂', rfl, hg₂, hrd, hpre⟩ := parseStatements_token_inv hg₁ hparse₁
    obtain ⟨read', fuel₃, g₃, heq, hbare, hle₃, hg₃⟩ := parseArguments_argumentsTokens fuel₂ []
      harguments hnest' hg₂ (by omega)
    rw [heq] at hrd
    obtain ⟨fuel₄, g₄, nested, g₄', rfl, hg₄, hnested, hpre'⟩ :=
      parseArguments_openBrace_inv hg₃ hrd
    obtain ⟨T, -, hinn⟩ := hfixes
    obtain ⟨r, hy', hfixed⟩ := hinn (b := [' ']) (Z := Z) blank_one (by simp)
    have hdeep := hfixed (hg₄.append hy') (by omega) hnested
    have hns' : namesIn read' = namesIn arguments := by
      rw [namesIn, ← collectIn_bareIn (fun _ _ => rfl) read', hbare,
        collectIn_bareIn (fun _ _ => rfl)]
    rw [List.nil_append, hns'] at hpre'
    have hall : namesIn arguments ++ ns <+: namesIn read :=
      ((List.prefix_append_right_inj _).mpr hdeep).trans hpre'
    rw [← List.append_assoc, ← hns]
    refine List.IsPrefix.trans ?_ hpre
    exact (List.prefix_append_right_inj _).mpr (List.cons_prefix_cons.mpr ⟨rfl, hall⟩)

/-- Ends with a blank, or is empty. -/
def EndsBlank (started : Bool) (X : List Char) : Prop :=
  (∃ X', X = X' ++ [' ']) ∨ X = [] ∧ started = false

theorem endsBlank_textBefore (started : Bool) (before : List ParsedCommand) (line : ℕ) :
    EndsBlank started (textBefore started before line) := by
  have htrue : ∀ (txt : List Char) (prev : Option ℕ),
      ∃ X, txt ++ commandSeparator true prev line = X ++ [' '] := by
    intro txt prev
    unfold commandSeparator
    simp only [if_true]
    split_ifs
    · exact ⟨txt ++ [' ', ';', ';'], by simp⟩
    · exact ⟨txt ++ [' ', ';'], by simp⟩
  unfold textBefore
  cases started with
  | true =>
    rw [lastLine_true]
    exact .inl (htrue _ _)
  | false =>
    cases before with
    | nil => exact .inr ⟨rfl, rfl⟩
    | cons c before =>
      rw [lastLine, lastLine_true]
      exact .inl (htrue _ _)

theorem noBreaks_textBefore (hbef : Writable before) (started : Bool) (line : ℕ) :
    NoBreaks (textBefore started before line) :=
  noBreaks_append.mpr ⟨noBreaks_renderCommands _ _ hbef, noBreaks_commandSeparator _ _ _⟩

/-- A list with a name that is not full is written as a text whose beginning fixes the names before
the first such name. -/
theorem exists_fixes : ∀ (n : ℕ) {cs : List ParsedCommand} {k : ℕ} (started : Bool),
    nestingOf cs < n → carriedOf cs = [] → (∃ m ∈ namesOf cs, ¬IsFull m) →
    k + nestingOf cs ≤ maxNestingDepth →
    ∃ X Y, renderCommands started none cs = X ++ Y ∧ NoBreaks X ∧
      EndsBlank started X ∧ Fixes k started X (fullPrefix (namesOf cs)) := by
  intro n
  induction n with
  | zero => exact fun _ hn => absurd hn (not_lt_zero _)
  | succ n ih =>
    intro cs k started hn hcar hbad hnest
    obtain ⟨before, c, after, rfl, hbef, hc, hbad⟩ := exists_first_bad hcar hbad
    obtain ⟨name, args, start, line⟩ := c
    have hnames : namesOf (before ++ .mk name args start line :: after) =
        namesOf before ++ (name :: (namesIn args ++ namesOf after)) := by
      rw [namesOf, collectOf_append, collectOf]
      rfl
    obtain ⟨tail, hrender⟩ : ∃ tail, renderCommands started none
        (before ++ .mk name args start line :: after) =
        textBefore started before line ++ (name.toList ++ (renderArguments args ++ tail)) := by
      rw [renderCommands_append started none _ hbef, renderCommands, textBefore, renderCommand]
      simp only [append_assoc]
      exact ⟨_, rfl⟩
    simp only [nestingOf_append, nestingOf] at hn hnest
    rw [hnames, hrender, fullPrefix_append hbef.names]
    by_cases hnm : IsFull name
    · obtain ⟨has, hinn⟩ := append_eq_nil_iff.mp (append_eq_nil_iff.mp hc).1
      have hbad' : ∃ m ∈ namesIn args, ¬IsFull m := by
        refine exists_bad_right (forall_mem_singleton.mpr hnm) ?_
        simpa only [namesOf, collectOf, append_nil] using hbad
      obtain ⟨first, commands, grouping, r, rfl, hfst, hcmds, hbad''⟩ :=
        exists_first_bad_argument has hinn hbad'
      simp only [nestingIn_append, nestingIn, nestingArgument, ParsedCommands.nesting] at hn hnest
      obtain ⟨X, Y, hXY, hbreaks, hend, hfixes⟩ :=
        ih (k := k + 1) false (by omega) hcmds hbad'' (by omega)
      have hlist : renderList (.mk commands [] grouping) = X ++ Y := by
        rw [renderList]
        exact hXY
      have hns : fullPrefix (name :: (namesIn (first ++ .commands (.mk commands [] grouping) :: r) ++
          namesOf after)) = name :: (namesIn first ++ fullPrefix (namesOf commands)) := by
        rw [fullPrefix_cons hnm, namesIn, collectIn_append, append_assoc,
          fullPrefix_append hfst.names, collectIn, append_assoc]
        exact congrArg (fun ns => name :: (namesIn first ++ ns)) (fullPrefix_append_of_not hbad'' _)
      refine ⟨textBefore started before line ++
        (name.toList ++ (renderArguments first ++ (' ' :: '{' :: ' ' :: X))),
        Y ++ ([' ', '}'] ++ (renderArguments r ++ tail)), ?_, ?_, .inl ?_, ?_⟩
      · rw [renderArguments_append, renderArguments, renderArgument, hlist]
        simp
      · refine noBreaks_append.mpr ⟨noBreaks_textBefore hbef started line, noBreaks_append.mpr
          ⟨noBreaks_name hnm, noBreaks_append.mpr ⟨noBreaks_renderArguments hfst, ?_⟩⟩⟩
        simpa [noBreaks_cons] using hbreaks
      · rcases hend with ⟨X', rfl⟩ | ⟨rfl, -⟩
        · exact ⟨textBefore started before line ++
            (name.toList ++ (renderArguments first ++ (' ' :: '{' :: ' ' :: X'))), by simp⟩
        · exact ⟨textBefore started before line ++
            (name.toList ++ (renderArguments first ++ [' ', '{'])), by simp⟩
      · rw [hns]
        exact fixes_nested hbef started hnm hfst line (by omega) (by omega) hfixes
    · refine ⟨textBefore started before line, _, rfl, noBreaks_textBefore hbef started line,
        endsBlank_textBefore started before line, ?_⟩
      rw [fullPrefix_cons_of_not hnm, append_nil]
      exact fixes_before hbef started line (by omega)

/-! ## Reading a text in part -/

theorem exists_has_new {parser : CommandParser} (hwindows : parser.windows = false) {started : Bool}
    {X : List Char} (hX : NoBreaks X) (hend : EndsBlank started X) (Y : List Char) :
    ∃ Z, (Lexer.new (String.ofList (X ++ Y)) parser).Has (X ++ Z) := by
  rcases hend with ⟨X', rfl⟩ | ⟨rfl, -⟩
  · have hhas := has_new_append hwindows (noBreaks_append.mp hX).1 Y
    refine ⟨cook 0 (normalizeNewlines Y), ?_⟩
    simpa only [append_assoc, singleton_append] using hhas
  · exact ⟨_, has_new_cook hwindows Y⟩

/-- The names of a list before the first that is not full are read again, whatever the rest is read
as. -/
theorem fullPrefix_parseAll {parser : CommandParser} (hwindows : parser.windows = false)
    (grouping : CommandGrouping) {raw : ParsedCommands} (hp : Parsed p)
    (hbad : ∃ n ∈ p.names, ¬IsFull n)
    (h : (GrammarParser.new (Lexer.new p.toTmuxReparseString parser) grouping).parseAll = .ok raw) :
    fullPrefix p.names <+: raw.names := by
  obtain ⟨commands, asg, _⟩ := p
  obtain ⟨hwords, hcar, hnest⟩ := hp
  have hdeep : 1 + nestingOf commands ≤ maxNestingDepth := by
    rw [add_comm]
    exact hnest
  obtain ⟨X, Y, hXY, hX, hend, T, hT, hfixes⟩ := exists_fixes (nestingOf commands + 1)
    (!(assignmentsToTmuxReparseString asg).isEmpty) (lt_succ_self _) hcar hbad hdeep
  rw [ParsedCommands.toTmuxReparseString, renderList, hXY, ← append_assoc] at h
  have hAX : EndsBlank (!(assignmentsToTmuxReparseString asg).isEmpty)
      (assignmentsToTmuxReparseString asg ++ X) := by
    rcases hend with ⟨X', rfl⟩ | ⟨rfl, hst⟩
    · exact .inl ⟨_, (append_assoc ..).symm⟩
    · exact .inr ⟨by simpa using hst, hst⟩
  obtain ⟨Z, hhas⟩ := exists_has_new hwindows
    (noBreaks_append.mpr ⟨noBreaks_assignmentsToTmuxReparseString asg, hX⟩) hAX Y
  generalize Lexer.new (String.ofList (assignmentsToTmuxReparseString asg ++ X ++ Y)) parser =
    l at h hhas
  obtain ⟨g', hparse⟩ := (parseAll_eq_ok rfl).mp h
  have hlen : _ ≤ (GrammarParser.new l grouping).lexer.size := hhas.length_le
  simp only [length_append] at hlen
  obtain ⟨r, hy, hfixed⟩ := hfixes blank_nil (fun _ => rfl)
  cases asg with
  | nil => exact hfixed (sees_new hhas hy grouping) (by omega) hparse
  | cons a as =>
    have hne := cons_ne_nil a as
    have hst : (!(assignmentsToTmuxReparseString (a :: as)).isEmpty) = true := by
      simpa [List.isEmpty_iff] using assignmentsToTmuxReparseString_ne_nil hne
    rw [hst] at hXY hend
    obtain ⟨T', rfl⟩ := hT hst
    have hdelim : Delimited (X ++ Z) := by
      have hboth := delimited_renderCommands none commands (.inl rfl)
      rw [append_nil, hXY] at hboth
      rcases hend with ⟨X', rfl⟩ | ⟨-, hfalse⟩
      · cases X' with
        | nil => exact delimited_cons Z
        | cons c X' =>
          rcases hboth with hboth | ⟨txt, hboth⟩
          · cases hboth
          · obtain ⟨rfl, -⟩ := cons.inj hboth
            exact delimited_cons _
      · cases hfalse
    rw [ParsedCommands.assignments_mk] at hwords
    have has := yields_assignmentsToTmuxReparseString hwords hne blank_nil hdelim
    have hrd := has.length_le rfl rfl
    simp only [length_append, nil_append] at hrd
    rw [nil_append, ← append_assoc] at has
    have hfu : 2 * (assignmentTokens (a :: as)).length + 1 ≤
        4 * (GrammarParser.new l grouping).lexer.size + 15 := by omega
    obtain ⟨acc, fuel, g₁, heq, hc, -, hle, hg₁⟩ := parseStatements_assignmentTokens
      _ (.withGrouping grouping) hwords hne (.inr (.inl rfl))
      (sees_new hhas (has.append hy) grouping) hfu [] false
    have hfix := hfixed hg₁ (by omega) (heq.symm.trans hparse)
    rwa [names_eq, hc] at hfix

/-! ## What resolving makes of it -/

/-- A trace of these names : as many commands as there are full names at the beginning, then
nothing or one that is not as it was written. -/
def Begins (ns : List String) (trace : List (String × Origin)) : Prop :=
  ∃ first rest, trace = first ++ rest ∧ first.length = (fullPrefix ns).length ∧
    (∀ x ∈ first, x.2 ≠ .asWritten) ∧ (∀ x ∈ rest.head?, x.2 ≠ .asWritten) ∧
    ((∀ n ∈ ns, IsFull n) → rest = [])

theorem begins_nil : Begins [] [] := ⟨[], [], rfl, rfl, by simp, by simp, fun _ => rfl⟩

theorem begins_lookedUp (name full : String) : Begins [name] [(full, .lookedUp)] := by
  by_cases hnm : IsFull name
  · exact ⟨[(full, .lookedUp)], [], rfl, by rw [fullPrefix_cons hnm]; rfl, by simp, by simp,
      fun _ => rfl⟩
  · exact ⟨[], [(full, .lookedUp)], rfl, by rw [fullPrefix_cons_of_not hnm]; rfl, by simp, by simp,
      fun h => absurd (h name mem_cons_self) hnm⟩

theorem begins_of_not {name : String} (hnm : ¬IsFull name) (ns : List String)
    (h : ∀ x ∈ trace.head?, x.2 ≠ .asWritten) : Begins (name :: ns) trace :=
  ⟨[], trace, rfl, by rw [fullPrefix_cons_of_not hnm]; rfl, by simp, h,
    fun hall => absurd (hall name mem_cons_self) hnm⟩

theorem Begins.head (h : Begins ns trace) : ∀ x ∈ trace.head?, x.2 ≠ .asWritten := by
  obtain ⟨first, r, rfl, -, hfst, hr, -⟩ := h
  cases first with
  | nil => exact hr
  | cons y first =>
    intro x hx
    obtain rfl := Option.some.inj hx
    exact hfst y mem_cons_self

theorem Begins.append {ms : List String} {trace' : List (String × Origin)} (h : Begins ns trace)
    (h' : Begins ms trace') : Begins (ns ++ ms) (trace ++ trace') := by
  have hhd := h'.head
  obtain ⟨first, r, rfl, hlen, hfst, hr, hall⟩ := h
  by_cases hns : ∀ n ∈ ns, IsFull n
  · obtain ⟨first', r', rfl, hlen', hfst', hr', hall'⟩ := h'
    obtain rfl := hall hns
    have hpre := fullPrefix_eq_self hns
    refine ⟨first ++ first', r', by simp, ?_, ?_, hr', fun hboth => hall' fun n hn => hboth n
      (mem_append_right _ hn)⟩
    · rw [fullPrefix_append hns, length_append, length_append, hlen, hlen', hpre]
    · exact fun x hx => (mem_append.mp hx).elim (hfst x) (hfst' x)
  · push Not at hns
    refine ⟨first, r ++ trace', by simp, ?_, hfst, ?_, fun hboth => ?_⟩
    · rw [fullPrefix_append_of_not hns, hlen]
    · cases r with
      | nil => exact hhd
      | cons y r => exact hr
    · obtain ⟨n, hn, hnot⟩ := hns
      exact absurd (hboth n (mem_append_left _ hn)) hnot

/-- If no more names of the trace are full than it begins with, all are. -/
theorem Begins.all_full (h : Begins ns trace)
    (hcanon : ∀ n o, (n, o) ∈ trace → o ≠ .asWritten → IsFull n)
    (hle : (fullPrefix (trace.map Prod.fst)).length ≤ (fullPrefix ns).length) :
    ∀ n ∈ trace.map Prod.fst, IsFull n := by
  obtain ⟨first, r, rfl, hlen, hfst, hr, -⟩ := h
  have hf : ∀ n ∈ first.map Prod.fst, IsFull n := by
    intro n hn
    obtain ⟨⟨m, o⟩, hmem, rfl⟩ := mem_map.mp hn
    exact hcanon m o (mem_append_left _ hmem) (hfst _ hmem)
  cases r with
  | nil => simpa using hf
  | cons y r =>
    have hy : IsFull y.1 := hcanon y.1 y.2 (by simp) (hr y rfl)
    rw [map_append, fullPrefix_append hf, map_cons, fullPrefix_cons hy,
      length_append, length_map, length_cons, hlen] at hle
    omega

section Trace

variable {replacement : Replacement}

mutual

theorem begins_origins (hf : replacement.KeepsFull) :
    ∀ raw : ParsedCommands, Begins raw.names (origins [] replacement raw)
  | .mk commands assignments _ => begins_originsOf hf assignments commands

theorem begins_originsOf (hf : replacement.KeepsFull) (asg : List EnvironmentAssignment) :
    ∀ cs : List ParsedCommand, Begins (namesOf cs) (originsOf [] replacement asg cs)
  | [] => begins_nil
  | .mk name args _ line :: cs => by
    rw [namesOf, collectOf, originsOf]
    refine Begins.append ?_ (begins_originsOf hf asg cs)
    cases hrepl : replacement asg name with
    | none =>
      exact (begins_lookedUp name _).append (begins_originsIn hf args)
    | some r =>
      have hnm : ¬IsFull name := fun h => by
        rw [hf h] at hrepl
        cases hrepl
      refine begins_of_not hnm _ ?_
      cases r with
      | error e => simp
      | ok replaced =>
        obtain ⟨commands, made, grouping⟩ := replaced
        rcases commands with _ | ⟨⟨name', args', start, line'⟩, commands⟩
        · simp
        · simp [ParsedCommands.names, collect_eq, collectOf]

theorem begins_originsIn (hf : replacement.KeepsFull) : ∀ args : List CommandArgument,
    Begins (namesIn args) (originsIn [] replacement args)
  | [] => begins_nil
  | .string _ :: args => begins_originsIn hf args
  | .commands list :: args =>
    (begins_origins hf list).append (begins_originsIn hf args)

end

end Trace

/-! ## The round trip -/

theorem ParsedCommands.Same.names_eq {q : ParsedCommands} (h : p.Same q) : p.names = q.names := by
  rw [← names_bare, h, names_bare]

namespace CommandParser

section Stock

variable {parser : CommandParser} (hparser : parser.IsStock) {p : ParsedCommands}

include hparser

/-- A list with full names in which each command is short enough is parsed to itself. -/
theorem parse_toTmuxReparseString (hp : Parsed p) (hns : ∀ n ∈ p.names, IsFull n)
    (hlen : ensureParsedCommandLengths defaultMaxCommandBytes p = .ok ()) :
    ∃ p', parser.parse p.toTmuxReparseString = .ok p' ∧ p'.Same p := by
  have hwr : Writable p.commands := ⟨names_eq p ▸ hns, carried_eq p ▸ hp.carried⟩
  obtain ⟨raw, hrd, hsm⟩ :=
    parseAll_toTmuxReparseString hparser.windows .byLine hp.words hwr hp.nesting
  obtain ⟨p', hres, hbare⟩ :=
    resolve_writable (aliasReplacement_full hparser) (hsm.writable hwr)
  refine ⟨p', ?_, hbare.trans hsm⟩
  have hlen' := hsm.ensureParsedCommandLengths_iff.mpr hlen
  simp only [parse, parseInner, readStructure, expandAndLookup, hrd, ok_bind,
    hparser.maxCommandBytes, hlen', hparser.exactCommands]
  exact hres

variable {p' : ParsedCommands}

/-- A list that is parsed to itself has full names. -/
theorem full_of_parse (hp : Parsed p)
    (h : parser.parse p.toTmuxReparseString = .ok p') (hsm : p'.Same p) :
    ∀ n ∈ p.names, IsFull n := by
  obtain ⟨raw, hrd, h⟩ := bind_eq_ok h
  have hres := resolved_resolve parser.isResolved_aliasReplacement (wellRead_new hrd).carried h
  rw [hparser.exactCommands] at hres
  have hns := hsm.names_eq.symm.trans hres.names
  by_contra hbad
  push Not at hbad
  have hle := length_fullPrefix_le
    (fullPrefix_parseAll hparser.windows .byLine hp hbad (readStructure_eq_ok hrd).1)
  obtain ⟨n, hn, hnot⟩ := hbad
  rw [hns] at hle hn
  exact hnot ((begins_origins (aliasReplacement_full hparser) raw).all_full hres.canonical hle n hn)

/-- A list that is parsed to itself has commands that are short enough. -/
theorem length_of_parse (hp : Parsed p) (hns : ∀ n ∈ p.names, IsFull n)
    (h : parser.parse p.toTmuxReparseString = .ok p') :
    ensureParsedCommandLengths defaultMaxCommandBytes p = .ok () := by
  have hwr : Writable p.commands := ⟨names_eq p ▸ hns, carried_eq p ▸ hp.carried⟩
  obtain ⟨raw, hrd, hsm⟩ :=
    parseAll_toTmuxReparseString hparser.windows .byLine hp.words hwr hp.nesting
  obtain ⟨raw', hstructure, -⟩ := bind_eq_ok h
  obtain ⟨hrd', hlen⟩ := readStructure_eq_ok hstructure
  obtain rfl := ok.inj (hrd'.symm.trans hrd)
  rw [hparser.maxCommandBytes] at hlen
  exact hsm.ensureParsedCommandLengths_iff.mp hlen

end Stock

/-- What is parsed is parsed again from its own text, up to lines and grouping, if and only if the
commands in braces behind aliases are written with full names and no command is too long with its
full name. -/
theorem reparse_iff (conditionIsTrue : String → Bool) (environment : List (String × String))
    (homeDir : Option String) (userHomeDirs : List (String × String)) (input : String)
    {p : ParsedCommands} :
    let parser : CommandParser := { new conditionIsTrue with
      environment := environment, homeDir := homeDir, userHomeDirs := userHomeDirs }
    parser.parse input = .ok p → ∃ raw, parser.readInput (.text input) = .ok raw ∧
      ((∃ p', parser.parse p.toTmuxReparseString = .ok p' ∧ p'.Same p) ↔
        (∀ n ∈ behindAliases parser.aliasReplacement raw, IsFull n) ∧
          ensureParsedCommandLengths defaultMaxCommandBytes p = .ok ()) := by
  intro parser h
  have hparser : parser.IsStock := ⟨rfl, rfl, rfl, rfl⟩
  have hp := parsed_of_parse hparser h
  obtain ⟨raw, hread, h⟩ := bind_eq_ok h
  have hresolved := resolved_resolve parser.isResolved_aliasReplacement (wellRead_new hread).carried h
  have hnames : (∀ n ∈ p.names, IsFull n) ↔
      ∀ n ∈ behindAliases parser.aliasReplacement raw, IsFull n := by
    simp only [mem_behindAliases parser.exactCommands, hresolved.names]
    constructor
    · exact fun hall n hn => hall n (mem_map_of_mem hn)
    · intro hbehind n hn
      obtain ⟨⟨m, o⟩, hmem, rfl⟩ := mem_map.mp hn
      by_cases ho : o = .asWritten
      · exact hbehind m (ho ▸ hmem)
      · exact hresolved.canonical m o hmem ho
  refine ⟨raw, hread, ?_⟩
  rw [← hnames]
  constructor
  · rintro ⟨p', hparse, hsame⟩
    have hfull := full_of_parse hparser hp hparse hsame
    exact ⟨hfull, length_of_parse hparser hp hfull hparse⟩
  · rintro ⟨hfull, hlength⟩
    exact parse_toTmuxReparseString hparser hp hfull hlength

theorem reparse_quoted :
    ∃ p p', (new fun _ => false).parse "A=b ; splitp { new-window } ; neww \"~'\"" = .ok p ∧
      (new fun _ => false).parse p.toTmuxReparseString = .ok p' ∧ p'.Same p := by
  obtain ⟨p, hparse, hlength⟩ : ∃ p, (new fun _ => false).parse
      "A=b ; splitp { new-window } ; neww \"~'\"" = .ok p ∧
      (ensureParsedCommandLengths defaultMaxCommandBytes p).toOption = some () :=
    exists_of_toOption_map (by decide +kernel)
  obtain ⟨raw', hread', hbehind⟩ : ∃ raw, (new fun _ => false).readInput
      (.text "A=b ; splitp { new-window } ; neww \"~'\"") = .ok raw ∧
      behindAliases (new fun _ => false).aliasReplacement raw = ["new-window"] :=
    exists_of_toOption_map (by decide +kernel)
  obtain ⟨raw, hread, hiff⟩ := reparse_iff (fun _ => false) [] none [] _ hparse
  obtain rfl := ok.inj (hread'.symm.trans hread)
  obtain ⟨p', hparse', hsame⟩ := hiff.mpr
    ⟨hbehind ▸ by decide +kernel, toOption_eq_some_iff.mp hlength⟩
  exact ⟨p, p', hparse, hparse', hsame⟩

/-- Two lists that are written differently are not the same. -/
theorem exists_not_reparsed {parser : CommandParser} {input written again : String}
    (h : (parser.parse input).toOption.map (fun p => (p.bare.toTmuxReparseString,
      (parser.parse p.toTmuxReparseString).toOption.map (·.bare.toTmuxReparseString))) =
        some (written, some again)) (hne : again ≠ written) :
    ∃ p, parser.parse input = .ok p ∧
      ¬∃ p', parser.parse p.toTmuxReparseString = .ok p' ∧ p'.Same p := by
  obtain ⟨p, hparse, hp⟩ := exists_of_toOption_map h
  obtain ⟨hwritten, hagain⟩ := Prod.mk.inj hp
  refine ⟨p, hparse, ?_⟩
  rintro ⟨p', hp', hsame⟩
  rw [hp'] at hagain
  have heq : p'.bare.toTmuxReparseString = again := Option.some.inj hagain
  rw [hsame, hwritten] at heq
  exact hne heq.symm

/-- From the text of what is parsed, the command in braces behind `splitp` is parsed to
`new-window`. In a build for Windows the escape of a tab behind a slash is not read back. -/
theorem reparse_resolves_alias_arguments :
    (∃ p, (new fun _ => false).parse "splitp { neww }" = .ok p ∧
      ¬∃ p', (new fun _ => false).parse p.toTmuxReparseString = .ok p' ∧ p'.Same p) ∧
    let windowsParser := { new fun _ => false with windows := true }
    ∃ p, windowsParser.parse "display-message 'a/\tb'" = .ok p ∧
      ¬∃ p', windowsParser.parse p.toTmuxReparseString = .ok p' ∧ p'.Same p := by
  constructor
  · exact @exists_not_reparsed _ _ "split-window { neww }"
      "split-window { new-window }" (by decide +kernel) (by decide)
  · exact @exists_not_reparsed _ _ "display-message a/\\tb" "display-message a/\\\\tb"
      (by decide +kernel) (by decide)

/-- The text of a list with full names and short commands is parsed to it however often the text of
the last result is parsed again. -/
theorem reparse_stable {parser : CommandParser} (hparser : parser.IsStock) {input : String}
    {p q : ParsedCommands} (h : parser.parse input = .ok p) (hfull : ∀ n ∈ p.names, IsFull n)
    (hlength : ensureParsedCommandLengths defaultMaxCommandBytes p = .ok ())
    (hrun : Relation.ReflTransGen (fun a b => parser.parse a.toTmuxReparseString = .ok b) p q) :
    q.Same p ∧ ∃ q', parser.parse q.toTmuxReparseString = .ok q' ∧ q'.Same q := by
  have hagain {q : ParsedCommands} (hq : Parsed q) (hsame : q.Same p) :=
    parse_toTmuxReparseString hparser hq (hsame.names_eq ▸ hfull)
      (hsame.ensureParsedCommandLengths_iff.mpr hlength)
  have hkeeps : Parsed q ∧ q.Same p := by
    induction hrun with
    | refl => exact ⟨parsed_of_parse hparser h, rfl⟩
    | tail _ hstep ih =>
      obtain ⟨next, hparse, hsame⟩ := hagain ih.1 ih.2
      obtain rfl := ok.inj (hstep.symm.trans hparse)
      exact ⟨parsed_of_parse hparser hstep, hsame.trans ih.2⟩
  exact ⟨hkeeps.2, hagain hkeeps.1 hkeeps.2⟩

theorem reparse_stable_alias :
    ∃ p p', (new fun _ => false).parse "neww" = .ok p ∧
      (new fun _ => false).parse p.toTmuxReparseString = .ok p' ∧ p'.Same p := by
  obtain ⟨p, hparse, hp⟩ : ∃ p, (new fun _ => false).parse "neww" = .ok p ∧
      (p.names, (ensureParsedCommandLengths defaultMaxCommandBytes p).toOption) =
        (["new-window"], some ()) := exists_of_toOption_map (by decide +kernel)
  obtain ⟨hnames, hlength⟩ := Prod.mk.inj hp
  obtain ⟨-, p', hparse', hsame⟩ := reparse_stable ⟨rfl, rfl, rfl, rfl⟩ hparse
    (hnames ▸ by decide) (toOption_eq_some_iff.mp hlength) .refl
  exact ⟨p, p', hparse, hparse', hsame⟩

end CommandParser

end Rmux
