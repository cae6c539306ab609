import Rmux.CommandTokens

/-!
# Reading what was written

A list whose commands have full names is written as a text that the grammar reads as the same list,
up to lines and groupings (`parseAll_toTmuxReparseString`). The parser is seen through the tokens it
is going to get (`Sees`); each lemma says which tokens a step consumes and what it makes of them, with
the fuel it uses, and leaves open what comes after.
-/

namespace Rmux

open Lexer GrammarParser List Except Nat

variable {p : ParsedCommands}

/-! ## Lists without lines -/

mutual

/-- The list without lines and groupings. -/
def ParsedCommands.bare : ParsedCommands → ParsedCommands
  | .mk commands assignments _ => .mk (bareOf commands) assignments .byLine

def bareOf : List ParsedCommand → List ParsedCommand
  | [] => []
  | .mk name arguments _ _ :: cs => .mk name (bareIn arguments) 0 0 :: bareOf cs

def bareIn : List CommandArgument → List CommandArgument
  | [] => []
  | a :: arguments => bareArgument a :: bareIn arguments

def bareArgument : CommandArgument → CommandArgument
  | .string value => .string value
  | .commands list => .commands list.bare

end

theorem bare_eq (p : ParsedCommands) : p.bare = .mk (bareOf p.commands) p.assignments .byLine := by
  cases p
  rfl

theorem bareOf_append (xs ys : List ParsedCommand) : bareOf (xs ++ ys) = bareOf xs ++ bareOf ys := by
  induction xs with
  | nil => rfl
  | cons x xs ih =>
    cases x
    simp [bareOf, ih]

theorem flatMap_assignments_bareIn (args : List CommandArgument) :
    (bareIn args).flatMap CommandArgument.assignments =
      args.flatMap CommandArgument.assignments := by
  induction args with
  | nil => rfl
  | cons a args ih =>
    have ha : (bareArgument a).assignments = a.assignments := by
      rcases a with _ | ⟨_, _, _⟩ <;> rfl
    simp [bareIn, ha, ih]

section Bare

variable {β : Type} {F : String → List CommandArgument → List β}

mutual

/-- What is collected from names and nested assignments does not depend on lines. -/
theorem collectOf_bareOf (hF : ∀ name args, F name (bareIn args) = F name args) :
    ∀ cs : List ParsedCommand, collectOf F (bareOf cs) = collectOf F cs
  | [] => rfl
  | .mk name args _ _ :: cs => by
    rw [bareOf, collectOf, collectOf, hF, collectIn_bareIn hF args, collectOf_bareOf hF cs]

theorem collectIn_bareIn (hF : ∀ name args, F name (bareIn args) = F name args) :
    ∀ args : List CommandArgument, collectIn F (bareIn args) = collectIn F args
  | [] => rfl
  | .string _ :: args => by
    rw [bareIn, collectIn, collectIn, collectIn_bareIn hF args]
    rfl
  | .commands (.mk commands _ _) :: args => by
    rw [bareIn, collectIn, collectIn, collectIn_bareIn hF args, bareArgument,
      ParsedCommands.bare, collectArgument, collectArgument, collect, collect,
      collectOf_bareOf hF commands]

end

mutual

theorem nestingOf_bareOf : ∀ cs : List ParsedCommand, nestingOf (bareOf cs) = nestingOf cs
  | [] => rfl
  | .mk _ arguments _ _ :: cs => by
    rw [bareOf, nestingOf, nestingOf, nestingIn_bareIn arguments, nestingOf_bareOf cs]

theorem nestingIn_bareIn : ∀ args : List CommandArgument,
    nestingIn (bareIn args) = nestingIn args
  | [] => rfl
  | .string _ :: args => by
    rw [bareIn, nestingIn, nestingIn, nestingIn_bareIn args]
    rfl
  | .commands (.mk commands _ _) :: args => by
    rw [bareIn, nestingIn, nestingIn, nestingIn_bareIn args, bareArgument, ParsedCommands.bare,
      nestingArgument, nestingArgument, ParsedCommands.nesting, ParsedCommands.nesting,
      nestingOf_bareOf commands]

end

variable {p q : ParsedCommands}

theorem names_bare (p : ParsedCommands) : p.bare.names = p.names := by
  rw [bare_eq, names_eq, names_eq]
  exact collectOf_bareOf (fun _ _ => rfl) p.commands

theorem carried_bare (p : ParsedCommands) : p.bare.carried = p.carried := by
  rw [bare_eq, carried_eq, carried_eq]
  exact collectOf_bareOf (fun _ _ => flatMap_assignments_bareIn _) p.commands

theorem nesting_bare (p : ParsedCommands) : p.bare.nesting = p.nesting := by
  rw [bare_eq, nesting_eq, nesting_eq]
  exact nestingOf_bareOf p.commands

theorem assignments_bare (p : ParsedCommands) : p.bare.assignments = p.assignments := by
  rw [bare_eq]
  rfl

/-- Lists that differ in lines and groupings only. -/
def ParsedCommands.Same (p q : ParsedCommands) : Prop := p.bare = q.bare

theorem ParsedCommands.Same.writable (h : p.Same q) (hq : Writable q.commands) :
    Writable p.commands := by
  obtain ⟨hns, hcar⟩ := hq
  rw [← names_eq, ← names_bare] at hns
  rw [← carried_eq, ← carried_bare] at hcar
  rw [← h] at hns hcar
  rw [names_bare, names_eq] at hns
  rw [carried_bare, carried_eq] at hcar
  exact ⟨hns, hcar⟩

end Bare

theorem map_drained_eq_self {arguments : List CommandArgument}
    (h : arguments.flatMap CommandArgument.assignments = []) :
    arguments.map CommandArgument.drained = arguments := by
  rw [flatMap_eq_nil_iff] at h
  refine (map_congr_left fun a ha => ?_).trans (map_id arguments)
  rcases a with _ | ⟨_, _, _⟩
  · rfl
  · have := h _ ha
    simp only [CommandArgument.assignments, ParsedCommands.assignments_mk] at this
    simp [CommandArgument.drained, this]

/-- A command whose nested lists have no assignments is pushed as it is. -/
theorem pushCommand_eq (p : ParsedCommands) {name : String} {args : List CommandArgument}
    (h : args.flatMap CommandArgument.assignments = []) (start line : ℕ) :
    p.pushCommand (.mk name args start line) =
      .mk (p.commands ++ [.mk name args start line]) p.assignments p.grouping := by
  simp [ParsedCommands.pushCommand, ParsedCommand.drainNestedAssignmentsInto, h,
    map_drained_eq_self h]

/-! ## What a parser is going to see -/

/-- What a lexer has left. -/
def Lexer.Left (l : Lexer) : Remaining → Prop
  | .text txt => l.Has txt
  | .ended => l.text = [] ∧ l.eof = true

theorem Lexer.Left.nextToken {l : Lexer} {x y : Remaining} {t : LexToken} {ts : List LexToken}
    (hl : l.Left x) (h : Yields x (t :: ts) y) :
    ∃ s l' x', l.nextToken = .ok (s, l') ∧ s.token = t ∧ l'.Left x' ∧ Yields x' ts y := by
  cases h with
  | cons hrd _ h =>
    obtain ⟨s, l', hnx, htok, hl'⟩ := hrd hl
    exact ⟨s, l', .text _, hnx, htok, hl', h⟩
  | newline h =>
    obtain ⟨s, l', hnx, htok, htext, heof⟩ := Has.nextToken_nil hl
    exact ⟨s, l', .ended, hnx, htok, ⟨htext, heof⟩, h⟩
  | eof h =>
    obtain ⟨s, l', hnx, htok, htext, heof⟩ := nextToken_eof hl.1 hl.2
    exact ⟨s, l', .ended, hnx, htok, ⟨htext, heof⟩, h⟩

/-- The parser is at depth `k`, sees these tokens next, and `y` is left after them. -/
structure Sees (k : ℕ) (g : GrammarParser) (ts : List LexToken) (y : Remaining) : Prop where
  depth : g.depth = k
  mode : g.commandLineMode = .start
  view : (g.peeked = none ∧ ∃ x, g.lexer.Left x ∧ Yields x ts y) ∨
    ∃ s us x, g.peeked = some s ∧ ts = s.token :: us ∧ g.lexer.Left x ∧ Yields x us y

namespace Sees

variable {k : ℕ} {g : GrammarParser} {t : LexToken} {ts us : List LexToken} {y z : Remaining}

theorem append (h : Sees k g ts y) (hy : Yields y us z) : Sees k g (ts ++ us) z := by
  refine ⟨h.depth, h.mode, ?_⟩
  rcases h.view with ⟨hpk, x, hx, hyields⟩ | ⟨s, ws, x, hpk, rfl, hx, hyields⟩
  · exact .inl ⟨hpk, x, hx, hyields.append hy⟩
  · exact .inr ⟨s, ws ++ us, x, hpk, rfl, hx, hyields.append hy⟩

theorem peekToken (h : Sees k g (t :: ts) y) :
    ∃ s g', g.peekToken = .ok (s, g') ∧ s.token = t ∧ g'.peeked = some s ∧ Sees k g' (t :: ts) y ∧
      Sees k { g' with peeked := none } ts y := by
  rcases h.view with ⟨hpk, x, hx, hy⟩ | ⟨s, us, x, hpk, heq, hx, hy⟩
  · obtain ⟨s, l', x', hnx, rfl, hl', hy'⟩ := hx.nextToken hy
    refine ⟨s, { g with lexer := l', peeked := some s }, ?_, rfl, rfl, ⟨h.depth, h.mode, .inr ⟨s,
      ts, x', rfl, rfl, hl', hy'⟩⟩, ⟨h.depth, h.mode, .inl ⟨rfl, x', hl', hy'⟩⟩⟩
    simp only [GrammarParser.peekToken, hpk, hnx]
    rfl
  · obtain ⟨rfl, rfl⟩ := cons.inj heq
    refine ⟨s, g, ?_, rfl, hpk, h, ⟨h.depth, h.mode, .inl ⟨rfl, x, hx, hy⟩⟩⟩
    simp only [GrammarParser.peekToken, hpk]

theorem peek (h : Sees k g (t :: ts) y) : ∃ g', g.peek = .ok (t, g') ∧ Sees k g' (t :: ts) y := by
  obtain ⟨s, g', hpk, rfl, -, hg', -⟩ := h.peekToken
  exact ⟨g', by simp only [GrammarParser.peek, hpk]; rfl, hg'⟩

theorem advance (h : Sees k g (t :: ts) y) : ∃ g', g.advance = .ok g' ∧ Sees k g' ts y := by
  obtain ⟨s, g', hpk, rfl, -, -, hg'⟩ := h.peekToken
  exact ⟨_, by simp only [GrammarParser.advance, hpk]; rfl, hg'⟩

theorem expect (h : Sees k g (t :: ts) y) (msg : String) :
    ∃ g', g.expect t msg = .ok g' ∧ Sees k g' ts y := by
  obtain ⟨g₁, hpk, h₁⟩ := h.peek
  obtain ⟨g₂, hadv, h₂⟩ := h₁.advance
  refine ⟨g₂, ?_, h₂⟩
  simp only [GrammarParser.expect, hpk, ok_bind, if_true, hadv]

theorem expectTokenWithLine {v : String} (h : Sees k g (.token v :: ts) y) (msg : String) :
    ∃ line g', g.expectTokenWithLine msg = .ok ((v, line), g') ∧ Sees k g' ts y := by
  obtain ⟨s, g₁, hpk, htok, -, h₁, -⟩ := h.peekToken
  obtain ⟨g₂, hadv, h₂⟩ := h₁.advance
  refine ⟨s.line, g₂, ?_, h₂⟩
  simp only [GrammarParser.expectTokenWithLine, hpk, ok_bind, htok, hadv]

theorem expectEquals {v : String} (h : Sees k g (.equals v :: ts) y) (msg : String) :
    ∃ g', g.expectEquals msg = .ok (v, g') ∧ Sees k g' ts y := by
  obtain ⟨g₁, hpk, h₁⟩ := h.peek
  obtain ⟨g₂, hadv, h₂⟩ := h₁.advance
  refine ⟨g₂, ?_, h₂⟩
  simp only [GrammarParser.expectEquals, hpk, ok_bind, hadv]

theorem putAssignment (h : Sees k g ts y) (a : EnvironmentAssignment) :
    Sees k (g.putAssignment a) ts y := by
  have hleft : ∀ {x}, g.lexer.Left x → (g.lexer.putAssignment a).Left x := by
    intro x hx
    cases x with
    | text txt => exact ⟨hx.text, hx.eof, hx.windows⟩
    | ended => exact hx
  refine ⟨h.depth, h.mode, ?_⟩
  rcases h.view with ⟨hpk, x, hx, hy⟩ | ⟨s, us, x, hpk, heq, hx, hy⟩
  · exact .inl ⟨hpk, x, hleft hx, hy⟩
  · exact .inr ⟨s, us, x, hpk, heq, hleft hx, hy⟩

end Sees

/-! ## Commands are read -/

/-- The tokens that end the arguments of a command here. -/
def IsStop (t : LexToken) : Prop := t = .newline ∨ t = .semicolon ∨ t = .closeBrace

section Grammar

variable {k : ℕ} (fuel : ℕ) {g : GrammarParser} {t : LexToken} {ts : List LexToken} {y : Remaining}
  {a : EnvironmentAssignment}

theorem parseArguments_stop (ht : IsStop t) (h : Sees k g (t :: ts) y) (active : Bool)
    (acc : List CommandArgument) :
    ∃ g', parseArguments (fuel + 1) active acc g = .ok (acc, g') ∧ Sees k g' (t :: ts) y := by
  obtain ⟨g', hpk, hg'⟩ := h.peek
  refine ⟨g', ?_, hg'⟩
  rw [parseArguments, hpk, ok_bind]
  rcases ht with rfl | rfl | rfl <;> rfl

theorem parseArguments_string {v : String} (h : Sees k g (classifyWord v.toList :: ts) y)
    (active : Bool) (acc : List CommandArgument) : ∃ g', parseArguments (fuel + 1) active acc g =
      parseArguments fuel active (acc ++ [.string v]) g' ∧ Sees k g' ts y := by
  obtain ⟨g₁, hpk, h₁⟩ := h.peek
  obtain ⟨g₂, hadv, h₂⟩ := h₁.advance
  refine ⟨g₂, ?_, h₂⟩
  rw [parseArguments, hpk, ok_bind]
  unfold classifyWord
  split_ifs <;> simp only [String.ofList_toList, hadv, ok_bind]

theorem parseCommand_eq {name : String} (h : Sees k g (.token name :: ts) y) (active : Bool) :
    ∃ line g', Sees k g' ts y ∧ ∀ {args : List CommandArgument} {g'' : GrammarParser},
      g''.commandLineMode = .start → parseArguments fuel active [] g' = .ok (args, g'') →
      parseCommand (fuel + 1) active g = .ok (.mk name args line line, g'') := by
  obtain ⟨line, g', hexp, hg'⟩ := h.expectTokenWithLine "expected command name"
  refine ⟨line, g', hg', fun {args g''} hmode ha => ?_⟩
  rw [parseCommand, hexp, ok_bind]
  simp only [ha, ok_bind, hmode]

/-- A semicolon between commands is skipped. -/
theorem parseStatements_semicolon (h : Sees k g (.semicolon :: ts) y) (stops : List ConditionStop)
    (brace active : Bool) (acc : ParsedCommands) :
    ∃ g', parseStatements (fuel + 1) stops brace active acc g =
      parseStatements fuel stops brace active acc g' ∧ Sees k g' ts y := by
  obtain ⟨g₁, hpk, h₁⟩ := h.peek
  obtain ⟨g₂, hadv, h₂⟩ := h₁.advance
  refine ⟨g₂, ?_, h₂⟩
  rw [parseStatements, hpk, ok_bind]
  simp only [hadv, ok_bind]

theorem parseStatements_closeBrace (h : Sees k g (.closeBrace :: ts) y) (stops : List ConditionStop)
    (active : Bool) (acc : ParsedCommands) :
    ∃ g', parseStatements (fuel + 1) stops true active acc g = .ok (acc, g') ∧
      Sees k g' (.closeBrace :: ts) y := by
  obtain ⟨g₁, hpk, h₁⟩ := h.peek
  refine ⟨g₁, ?_, h₁⟩
  rw [parseStatements, hpk, ok_bind]
  rfl

/-- The separators before a command are skipped. -/
theorem parseStatements_separatorTokens {started : Bool} {prev : Option ℕ} {line : ℕ}
    (h : Sees k g (separatorTokens started prev line ++ ts) y)
    (hfu : (separatorTokens started prev line).length ≤ fuel) (stops : List ConditionStop)
    (brace active : Bool) (acc : ParsedCommands) :
    ∃ g', parseStatements fuel stops brace active acc g =
      parseStatements (fuel - (separatorTokens started prev line).length) stops brace active
        acc g' ∧ Sees k g' ts y := by
  unfold separatorTokens at h hfu ⊢
  split_ifs at h hfu ⊢
  · obtain ⟨fuel, rfl⟩ : ∃ n, fuel = n + 2 := ⟨fuel - 2, by simp at hfu; omega⟩
    obtain ⟨g₁, h₁, hg₁⟩ := parseStatements_semicolon (fuel + 1) h stops brace active acc
    obtain ⟨g₂, h₂, hg₂⟩ := parseStatements_semicolon fuel hg₁ stops brace active acc
    exact ⟨g₂, h₁.trans h₂, hg₂⟩
  · obtain ⟨fuel, rfl⟩ : ∃ n, fuel = n + 1 := ⟨fuel - 1, by simp at hfu; omega⟩
    exact parseStatements_semicolon fuel h stops brace active acc
  · exact ⟨g, rfl, h⟩

/-- A command is read and pushed. -/
theorem parseStatements_command {name : String} (h : Sees k g (.token name :: ts) y)
    (stops : List ConditionStop) (brace : Bool) (acc : ParsedCommands) :
    ∃ g₁, Sees k g₁ (.token name :: ts) y ∧ ∀ {c : ParsedCommand} {g' : GrammarParser},
      parseCommand fuel true g₁ = .ok (c, g') →
      parseStatements (fuel + 1) stops brace true acc g =
        parseStatements fuel stops brace true (acc.pushCommand c) g' := by
  obtain ⟨g₁, hpk, h₁⟩ := h.peek
  refine ⟨g₁, h₁, fun {c g'} hcmd => ?_⟩
  rw [parseStatements, hpk, ok_bind]
  simp only [hcmd, ok_bind, if_true]

/-- A list in braces is read as an argument. -/
theorem parseArguments_openBrace (h : Sees k g (.openBrace :: ts) y) (hdep : k + 1 ≤ maxNestingDepth)
    (acc : List CommandArgument) : ∃ g₁, Sees (k + 1) g₁ ts y ∧
      ∀ {nested : ParsedCommands} {g₂ : GrammarParser} {us : List LexToken},
        parseStatements fuel [] true true (.withGrouping g₁.grouping) g₁ = .ok (nested, g₂) →
        Sees (k + 1) g₂ (.closeBrace :: us) y →
        ∃ g₃, parseArguments (fuel + 2) true acc g =
          parseArguments (fuel + 1) true (acc ++ [.commands nested]) g₃ ∧ Sees k g₃ us y := by
  obtain ⟨g', hpk, hg'⟩ := h.peek
  obtain ⟨g₀, hadv, hg₀⟩ := hg'.advance
  refine ⟨{ g₀ with depth := g₀.depth + 1 },
    ⟨congrArg (· + 1) hg₀.depth, hg₀.mode, hg₀.view⟩, fun {nested g₂ us} hnest hg₂ => ?_⟩
  have hshallow : Sees k { g₂ with depth := g₂.depth - 1 } (.closeBrace :: us) y :=
    ⟨congrArg (· - 1) hg₂.depth, hg₂.mode, hg₂.view⟩
  obtain ⟨g₃, hexp, hg₃⟩ := hshallow.expect "missing \x7d"
  refine ⟨g₃, ?_, hg₃⟩
  have hnotDeep : ¬maxNestingDepth < g₀.depth + 1 := by
    rw [hg₀.depth]
    omega
  rw [parseArguments, hpk, ok_bind]
  simp only [hadv, ok_bind]
  rw [parseUntil, if_neg hnotDeep]
  simp only [hnest, ok_bind, hexp]

/-- Before commands that follow others, or before what stops a list, a command ends. -/
theorem exists_isStop (prev : Option ℕ) (cs : List ParsedCommand) (ht : IsStop t)
    (ts : List LexToken) :
    ∃ t' ts', commandsTokens true prev cs ++ t :: ts = t' :: ts' ∧ IsStop t' := by
  cases cs with
  | nil => exact ⟨t, ts, rfl, ht⟩
  | cons c cs =>
    unfold commandsTokens separatorTokens
    simp only [if_true]
    split_ifs <;> exact ⟨_, _, rfl, .inr (.inl rfl)⟩

mutual

/-- Arguments are read back. -/
theorem parseArguments_argumentsTokens : ∀ {args : List CommandArgument} {k : ℕ} (fuel : ℕ)
    {g : GrammarParser} (acc : List CommandArgument) {ts : List LexToken} {y : Remaining},
    WritableArguments args → k + nestingIn args ≤ maxNestingDepth →
    Sees k g (argumentsTokens args ++ ts) y →
    2 * (argumentsTokens args).length + 2 ≤ fuel →
    ∃ args' fuel' g', parseArguments fuel true acc g =
        parseArguments fuel' true (acc ++ args') g' ∧
      bareIn args' = bareIn args ∧
      fuel ≤ fuel' + (argumentsTokens args).length ∧ Sees k g' ts y
  | [], k, fuel, g, acc, ts, y, _, _, h, _ =>
    ⟨[], fuel, g, by rw [List.append_nil], rfl, Nat.le_add_right _ _, h⟩
  | .string value :: args, k, fuel, g, acc, ts, y, ha, hnest, h, hfu => by
    have hlen : (argumentsTokens (.string value :: args)).length =
        (argumentsTokens args).length + 1 := by
      simp [argumentsTokens, argumentTokens]
    obtain ⟨fuel, rfl⟩ : ∃ n, fuel = n + 1 := ⟨fuel - 1, by omega⟩
    obtain ⟨g₁, hst, hg₁⟩ := parseArguments_string fuel h true acc
    obtain ⟨args', fuel', g', hp, hbare, hle, hg'⟩ := parseArguments_argumentsTokens
      fuel (acc ++ [.string value]) (writableArguments_cons_string.mp ha)
      (le_trans (by simp [nestingIn]) hnest) hg₁ (by omega)
    refine ⟨.string value :: args', fuel', g', ?_, ?_, by omega, hg'⟩
    · rw [hst, hp, append_assoc]
      rfl
    · rw [bareIn, bareIn, hbare]
  | .commands (.mk commands assignments grouping) :: args, k, fuel, g, acc, ts, y, ha,
      hnest, h, hfu => by
    obtain ⟨rfl, hc, ha⟩ := writableArguments_cons_commands.mp ha
    have hlen : (argumentsTokens (.commands (.mk commands [] grouping) :: args)).length =
        (commandsTokens false none commands).length + (argumentsTokens args).length + 2 := by
      simp [argumentsTokens, argumentTokens]
      omega
    have hdeep : k + 1 + nestingOf commands ≤ maxNestingDepth ∧
        k + nestingIn args ≤ maxNestingDepth := by
      rw [nestingIn, nestingArgument, ParsedCommands.nesting] at hnest
      omega
    obtain ⟨fuel, rfl⟩ : ∃ n, fuel = n + 2 := ⟨fuel - 2, by omega⟩
    have hbrace : Sees k g (.openBrace :: (commandsTokens false none commands ++
        .closeBrace :: (argumentsTokens args ++ ts))) y := by
      simpa [argumentsTokens, argumentTokens] using h
    obtain ⟨g₁, hg₁, hst⟩ := parseArguments_openBrace fuel hbrace (by omega) acc
    obtain ⟨nested, fuel', g₂, hstmts, hbare, has, hfu', hg₂⟩ :=
      parseStatements_commandsTokens fuel [] true (.withGrouping g₁.grouping) hc hdeep.1 (.inr (.inr rfl)) hg₁ (by omega)
    obtain ⟨fuel', rfl⟩ : ∃ n, fuel' = n + 1 := ⟨fuel' - 1, by omega⟩
    obtain ⟨g₃, hend, hg₃⟩ := parseStatements_closeBrace fuel' hg₂ [] true nested
    obtain ⟨g₄, hnx, hg₄⟩ := hst (hstmts.trans hend) hg₃
    obtain ⟨args', fuel'', g', hp, hbare', hle, hg'⟩ := parseArguments_argumentsTokens
      (fuel + 1) (acc ++ [.commands nested]) ha hdeep.2 hg₄ (by omega)
    refine ⟨.commands nested :: args', fuel'', g', ?_, ?_, by omega, hg'⟩
    · rw [hnx, hp, append_assoc]
      rfl
    · rw [bareIn, bareIn, hbare', bareArgument, bareArgument, bare_eq, hbare, has]
      rfl

/-- The commands of a list are read back, and pushed one after the other. -/
theorem parseStatements_commandsTokens : ∀ {cs : List ParsedCommand} {started : Bool}
    {prev : Option ℕ} {k : ℕ} (fuel : ℕ) {g : GrammarParser} (stops : List ConditionStop)
    (brace : Bool) (acc : ParsedCommands) {t : LexToken} {ts : List LexToken} {y : Remaining},
    Writable cs → k + nestingOf cs ≤ maxNestingDepth → IsStop t →
    Sees k g (commandsTokens started prev cs ++ t :: ts) y →
    2 * (commandsTokens started prev cs).length + 3 ≤ fuel →
    ∃ acc' fuel' g', parseStatements fuel stops brace true acc g =
        parseStatements fuel' stops brace true acc' g' ∧
      bareOf acc'.commands = bareOf acc.commands ++ bareOf cs ∧ acc'.assignments = acc.assignments ∧
      fuel ≤ fuel' + (commandsTokens started prev cs).length ∧ Sees k g' (t :: ts) y
  | [], started, prev, k, fuel, g, stops, brace, acc, t, ts, y, _, _, _, h, hfu =>
    ⟨acc, fuel, g, rfl, (List.append_nil _).symm, rfl, Nat.le_add_right _ _, h⟩
  | .mk name args startLine line :: cs, started, prev, k, fuel, g, stops, brace, acc, t,
      ts, y, hcs, hnest, ht, h, hfu => by
    obtain ⟨hnm, hargs, hcs⟩ := writable_cons.mp hcs
    have hlen : (commandsTokens started prev (.mk name args startLine line :: cs)).length =
        (separatorTokens started prev line).length + 1 + (argumentsTokens args).length +
          (commandsTokens true (some line) cs).length := by
      simp [commandsTokens, commandTokens]
      omega
    have hdeep : k + nestingIn args ≤ maxNestingDepth ∧ k + nestingOf cs ≤ maxNestingDepth := by
      rw [nestingOf] at hnest
      omega
    obtain ⟨t', ts', hnx, ht'⟩ := exists_isStop (some line) cs ht ts
    have htokens : commandsTokens started prev (.mk name args startLine line :: cs) ++
        t :: ts = separatorTokens started prev line ++
          (.token name :: (argumentsTokens args ++ t' :: ts')) := by
      simp [commandsTokens, commandTokens, ← hnx]
    rw [htokens] at h
    obtain ⟨g₁, hsep, hg₁⟩ :=
      parseStatements_separatorTokens fuel h (by omega) stops brace true acc
    obtain ⟨fuel', hfu'⟩ : ∃ n, fuel - (separatorTokens started prev line).length = n + 2 :=
      ⟨fuel - (separatorTokens started prev line).length - 2, by omega⟩
    rw [hfu'] at hsep
    obtain ⟨g₂, hg₂, hpu⟩ := parseStatements_command (fuel' + 1) hg₁ stops brace acc
    obtain ⟨line', g₃, hg₃, hcmd⟩ := parseCommand_eq fuel' hg₂ true
    obtain ⟨args', fuel₁, g₀, hp, hbare, hle₁, hg₀⟩ := parseArguments_argumentsTokens
      fuel' [] hargs hdeep.1 hg₃ (by omega)
    obtain ⟨fuel₁, rfl⟩ : ∃ n, fuel₁ = n + 1 := ⟨fuel₁ - 1, by omega⟩
    obtain ⟨g₄, hsp, hg₄⟩ := parseArguments_stop fuel₁ ht' hg₀ true ([] ++ args')
    rw [← hnx] at hg₄
    have has : args'.flatMap CommandArgument.assignments = [] := by
      rw [← flatMap_assignments_bareIn, hbare, flatMap_assignments_bareIn, hargs.assignments]
    have hst := hpu (hcmd hg₄.mode (hp.trans hsp))
    rw [nil_append, pushCommand_eq acc has] at hst
    obtain ⟨acc', fuel'', g', hr, hc, ha, hle, hg'⟩ := parseStatements_commandsTokens
      (fuel' + 1) stops brace
      (.mk (acc.commands ++ [.mk name args' line' line']) acc.assignments acc.grouping)
      hcs hdeep.2 ht hg₄ (by omega)
    refine ⟨acc', fuel'', g', hsep.trans (hst.trans hr), ?_, ha, by omega, hg'⟩
    rw [hc]
    simp [bareOf_append, bareOf, hbare]

end

/-! ## Assignments are read -/

theorem isStatementBoundary_of_isStop (ht : IsStop t) : isStatementBoundary t = true := by
  rcases ht with rfl | rfl | rfl <;> rfl

theorem parseAssignmentOrCommand_equals (ha : a.IsWord) (hhid : a.hidden = false) (ht : IsStop t)
    (h : Sees k g (.equals (String.ofList a.word) :: t :: ts) y) :
    ∃ g', parseAssignmentOrCommand (fuel + 1) true g = .ok ((some a, none), g') ∧
      Sees k g' (t :: ts) y := by
  obtain ⟨g₁, hequals, hg₁⟩ := h.expectEquals "expected name=value assignment"
  obtain ⟨g₂, hpk, hg₂⟩ := (hg₁.putAssignment a).peek
  have hfrom := (word_of_isWord ha).2
  rw [hhid] at hfrom
  refine ⟨g₂, ?_, hg₂⟩
  rw [parseAssignmentOrCommand, hequals, ok_bind]
  simp only [hfrom, if_true, hpk, ok_bind]
  rcases ht with rfl | rfl | rfl <;> rfl

theorem parseHiddenAssignment_hidden (ha : a.IsWord) (hhid : a.hidden = true) (ht : IsStop t)
    (h : Sees k g (.hidden :: .equals (String.ofList a.word) :: t :: ts) y) :
    ∃ g', g.parseHiddenAssignment true = .ok (some a, g') ∧ Sees k g' (t :: ts) y := by
  obtain ⟨g₁, hexp, hg₁⟩ := h.expect "expected %hidden"
  obtain ⟨g₂, hequals, hg₂⟩ := hg₁.expectEquals "%hidden must be followed by name=value"
  obtain ⟨g₃, hpk, hg₃⟩ := hg₂.peek
  have hfrom := (word_of_isWord ha).2
  rw [hhid] at hfrom
  have hens : g₂.ensureStatementBoundary "%hidden name=value must be a complete statement" =
      .ok g₃ := by
    simp only [ensureStatementBoundary, hpk, ok_bind, isStatementBoundary_of_isStop ht, if_true]
  refine ⟨g₃.putAssignment a, ?_, hg₃.putAssignment a⟩
  simp only [parseHiddenAssignment, hexp, ok_bind, hequals, hens, hfrom, if_true]

/-- An assignment is read and pushed. -/
theorem parseStatements_assignment (ha : a.IsWord) (ht : IsStop t)
    (h : Sees k g (a.tokens ++ t :: ts) y) (stops : List ConditionStop) (brace : Bool)
    (acc : ParsedCommands) : ∃ g', parseStatements (fuel + 2) stops brace true acc g =
      parseStatements (fuel + 1) stops brace true (acc.pushAssignment a) g' ∧
      Sees k g' (t :: ts) y := by
  unfold EnvironmentAssignment.tokens at h
  split_ifs at h with hhid
  · obtain ⟨g₁, hpk, hg₁⟩ := Sees.peek h
    obtain ⟨g', hp, hg'⟩ := parseHiddenAssignment_hidden ha hhid ht hg₁
    refine ⟨g', ?_, hg'⟩
    rw [parseStatements, hpk, ok_bind]
    simp only [hp, ok_bind, Option.elim]
  · obtain ⟨g₁, hpk, hg₁⟩ := Sees.peek h
    obtain ⟨g', hp, hg'⟩ := parseAssignmentOrCommand_equals fuel ha (by simpa using hhid) ht hg₁
    refine ⟨g', ?_, hg'⟩
    rw [parseStatements, hpk, ok_bind]
    simp only [hp, ok_bind, Option.elim, if_true]

theorem length_tokens (a : EnvironmentAssignment) : 1 ≤ a.tokens.length := by
  unfold EnvironmentAssignment.tokens
  split_ifs <;> simp

/-- Assignments are read back, and pushed one after the other. -/
theorem parseStatements_assignmentTokens : ∀ {as : List EnvironmentAssignment} (fuel : ℕ)
    {g : GrammarParser} (acc : ParsedCommands), (∀ a ∈ as, a.IsWord) → as ≠ [] → IsStop t →
    Sees k g (assignmentTokens as ++ t :: ts) y → 2 * (assignmentTokens as).length + 1 ≤ fuel →
    ∀ (stops : List ConditionStop) (brace : Bool),
    ∃ acc' fuel' g', parseStatements fuel stops brace true acc g =
        parseStatements fuel' stops brace true acc' g' ∧
      acc'.commands = acc.commands ∧ acc'.assignments = acc.assignments ++ as ∧
      fuel ≤ fuel' + (assignmentTokens as).length ∧ Sees k g' (t :: ts) y
  | [], _, _, _, _, hne, _, _, _, _, _ => absurd rfl hne
  | [a], fuel, g, acc, has, _, ht, h, hfu, stops, brace => by
    have hlen := length_tokens a
    simp only [assignmentTokens] at h hfu ⊢
    obtain ⟨fuel, rfl⟩ : ∃ n, fuel = n + 2 := ⟨fuel - 2, by omega⟩
    obtain ⟨g', hp, hg'⟩ := parseStatements_assignment fuel
      (has a mem_cons_self) ht h stops brace acc
    exact ⟨_, fuel + 1, g', hp, rfl, rfl, by omega, hg'⟩
  | a :: b :: as, fuel, g, acc, has, _, ht, h, hfu, stops, brace => by
    have hlen := length_tokens a
    have htokens : assignmentTokens (a :: b :: as) =
        a.tokens ++ .semicolon :: assignmentTokens (b :: as) := by
      rw [assignmentTokens]
      simp
    rw [htokens, length_append, length_cons] at hfu ⊢
    rw [htokens, append_assoc] at h
    obtain ⟨fuel, rfl⟩ : ∃ n, fuel = n + 3 := ⟨fuel - 3, by omega⟩
    obtain ⟨g₁, hp, hg₁⟩ := parseStatements_assignment (fuel + 1)
      (has a mem_cons_self) (.inr (.inl rfl)) h stops brace acc
    obtain ⟨g₂, hskip, hg₂⟩ := parseStatements_semicolon (fuel + 1) hg₁ stops brace true
      (acc.pushAssignment a)
    obtain ⟨acc', fuel', g', hr, hcmds, hassigns, hle, hg'⟩ :=
      parseStatements_assignmentTokens (fuel + 1) (acc.pushAssignment a)
        (fun c hc => has c (mem_cons_of_mem _ hc)) (by simp) ht hg₂ (by omega) stops brace
    refine ⟨acc', fuel', g', hp.trans (hskip.trans hr), hcmds, ?_, by omega, hg'⟩
    rw [hassigns, ParsedCommands.pushAssignment, ParsedCommands.assignments_mk, append_assoc]
    rfl

/-- At the end of the input what was read is returned. -/
theorem parseStatements_end (h : Sees k g [.newline, .eof] y) (stops : List ConditionStop)
    (brace active : Bool) (acc : ParsedCommands) :
    ∃ g', parseStatements (fuel + 2) stops brace active acc g = .ok (acc, g') := by
  obtain ⟨g₁, hpeek₁, hg₁⟩ := h.peek
  obtain ⟨g₂, hadv, hg₂⟩ := hg₁.advance
  obtain ⟨g₃, hpeek₃, -⟩ := hg₂.peek
  refine ⟨g₃, ?_⟩
  rw [parseStatements, hpeek₁, ok_bind]
  simp only [hadv, ok_bind]
  rw [parseStatements, hpeek₃, ok_bind]

end Grammar

/-! ## The whole text -/

/-- The tokens of a written list. -/
theorem yields_renderList (hwords : ∀ a ∈ p.assignments, a.IsWord) (hc : Writable p.commands) :
    Yields (.text (renderList p)) (assignmentTokens p.assignments ++
      commandsTokens (!p.assignments.isEmpty) none p.commands) (.text []) := by
  obtain ⟨commands, asg, grouping⟩ := p
  rw [renderList]
  cases asg with
  | nil =>
    cases commands with
    | nil => exact .nil
    | cons c cs =>
      obtain ⟨name, args, start, line⟩ := c
      obtain ⟨hnm, ha, hcs⟩ := writable_cons.mp hc
      have := yields_renderCommands_cons start hnm blank_nil (.inl rfl)
        (yields_renderArguments ha) (yields_renderCommands (some line) hcs (.inl rfl))
      rwa [append_nil] at this
  | cons a as =>
    have hst : (!(assignmentsToTmuxReparseString (a :: as)).isEmpty) = true := by
      simpa [List.isEmpty_iff] using assignmentsToTmuxReparseString_ne_nil (cons_ne_nil a as)
    have hc' := yields_renderCommands none hc (.inl rfl)
    have hdelim := delimited_renderCommands none commands (.inl rfl)
    rw [append_nil] at hc' hdelim
    have has := yields_assignmentsToTmuxReparseString hwords (cons_ne_nil a as) blank_nil hdelim
    rw [hst]
    exact has.append hc'

theorem noBreaks_renderList (hc : Writable p.commands) : NoBreaks (renderList p) := by
  cases p
  exact noBreaks_append.mpr ⟨noBreaks_assignmentsToTmuxReparseString _,
    noBreaks_renderCommands _ _ hc⟩

/-- At the top a list is read at depth one. -/
theorem parseAll_eq_ok {g : GrammarParser} (hdep : g.depth = 0) :
    g.parseAll = .ok p ↔ ∃ g', parseStatements (4 * g.lexer.size + 15) [] false true
      (.withGrouping g.grouping) { g with depth := 1 } = .ok (p, g') := by
  have hnotDeep : ¬maxNestingDepth < g.depth + 1 := by
    rw [hdep]
    decide
  rw [parseAll, parseUntil, if_neg hnotDeep, hdep]
  constructor
  · intro h
    obtain ⟨⟨commands, g₁⟩, hunt, h⟩ := bind_eq_ok h
    obtain ⟨⟨read, g₂⟩, hstmts, hunt⟩ := bind_eq_ok hunt
    cases hunt
    obtain rfl := ok.inj h
    exact ⟨_, hstmts⟩
  · rintro ⟨g', h⟩
    simp only [zero_add, h, ok_bind]

theorem sees_new {l : Lexer} {txt : List Char} {ts : List LexToken} {y : Remaining} (hl : l.Has txt)
    (h : Yields (.text txt) ts y) (grouping : CommandGrouping) :
    Sees 1 { GrammarParser.new l grouping with depth := 1 } ts y :=
  ⟨rfl, rfl, .inl ⟨rfl, .text txt, hl, h⟩⟩

/-- A list whose commands have full names is read back from its text. -/
theorem parseAll_toTmuxReparseString {parser : CommandParser} (hwindows : parser.windows = false)
    (grouping : CommandGrouping)
    (hwords : ∀ a ∈ p.assignments, a.IsWord) (hc : Writable p.commands)
    (hnest : p.nesting + 1 ≤ maxNestingDepth) :
    ∃ raw, (GrammarParser.new (Lexer.new p.toTmuxReparseString parser) grouping).parseAll = .ok raw ∧
      raw.Same p := by
  have hhas := has_new hwindows (noBreaks_renderList hc)
  have hy := yields_renderList hwords hc
  have hlen := hy.length_le rfl rfl
  simp only [length_append, length_nil, add_zero] at hlen
  have hsz : (renderList p).length ≤ (Lexer.new p.toTmuxReparseString parser).size :=
    hhas.length_le
  have hend : Yields (.text []) [.newline, .eof] .ended := .newline (.eof .nil)
  have hnest' : 1 + nestingOf p.commands ≤ maxNestingDepth := by
    rw [← nesting_eq, add_comm]
    exact hnest
  set g : GrammarParser :=
    { GrammarParser.new (Lexer.new p.toTmuxReparseString parser) grouping with depth := 1 }
  have hg : Sees 1 g (assignmentTokens p.assignments ++
      (commandsTokens (!p.assignments.isEmpty) none p.commands ++ [.newline, .eof])) .ended := by
    rw [← append_assoc]
    exact sees_new hhas (hy.append hend) grouping
  -- the assignments, if there are any, and then the commands
  obtain ⟨acc, fuel, g₁, ha, hacc, has, hfu, hg₁⟩ : ∃ acc fuel g₁,
      parseStatements (4 * (Lexer.new p.toTmuxReparseString parser).size + 15) [] false true
        (.withGrouping grouping) g = parseStatements fuel [] false true acc g₁ ∧
      acc.commands = [] ∧ acc.assignments = p.assignments ∧
      4 * (Lexer.new p.toTmuxReparseString parser).size + 15 ≤
        fuel + (assignmentTokens p.assignments).length ∧
      Sees 1 g₁ (commandsTokens (!p.assignments.isEmpty) none p.commands ++ [.newline, .eof])
        .ended := by
    by_cases hemp : p.assignments = []
    · rw [hemp] at hg ⊢
      exact ⟨.withGrouping grouping, _, g, rfl, rfl, rfl, le_add_right _ _, hg⟩
    · have hst : (!p.assignments.isEmpty) = true := by simpa using hemp
      rw [hst] at hg ⊢
      obtain ⟨t, ts, hnx, ht⟩ := exists_isStop none p.commands (.inl rfl) [.eof]
      rw [hnx] at hg ⊢
      obtain ⟨acc, fuel, g₁, heq, hcommands₁, has, hfu, hg₁⟩ :=
        parseStatements_assignmentTokens (4 * (Lexer.new p.toTmuxReparseString parser).size + 15)
          (.withGrouping grouping) hwords hemp ht hg (by omega) [] false
      exact ⟨acc, fuel, g₁, heq, hcommands₁, has, hfu, hg₁⟩
  obtain ⟨acc', fuel', g₂, hp, hbare, has', hfu', hg₂⟩ :=
    parseStatements_commandsTokens fuel [] false acc hc hnest' (.inl rfl) hg₁ (by omega)
  obtain ⟨fuel', rfl⟩ : ∃ n, fuel' = n + 2 := ⟨fuel' - 2, by omega⟩
  obtain ⟨g₃, hl⟩ := parseStatements_end fuel' hg₂ [] false true acc'
  refine ⟨acc', (parseAll_eq_ok rfl).mpr ⟨g₃, ha.trans (hp.trans hl)⟩, ?_⟩
  rw [ParsedCommands.Same, bare_eq, bare_eq, hbare, has', has, hacc]
  rfl

end Rmux
