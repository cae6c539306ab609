import Rmux.CommandGrammar
import Rmux.ExceptLemmas

/-!
# What the grammar reads

The list that the grammar reads from a text keeps no assignments in nested lists, makes only
assignments of the form `name=value`, and nests no deeper than the grammar allows (`WellRead`). Each
function of the grammar keeps this, by induction on its fuel (`wellRead_parseUntil`).
-/

namespace Rmux

open List Option Except Nat

/-! ## Lists as they are read -/

mutual

/-- How deep lists are nested in a list. -/
def ParsedCommands.nesting : ParsedCommands → ℕ
  | .mk commands _ _ => nestingOf commands

def nestingOf : List ParsedCommand → ℕ
  | [] => 0
  | .mk _ arguments _ _ :: cs => max (nestingIn arguments) (nestingOf cs)

def nestingIn : List CommandArgument → ℕ
  | [] => 0
  | a :: arguments => max (nestingArgument a) (nestingIn arguments)

def nestingArgument : CommandArgument → ℕ
  | .string _ => 0
  | .commands list => list.nesting + 1

end

theorem nesting_eq (p : ParsedCommands) : p.nesting = nestingOf p.commands := by
  cases p
  rfl

theorem nestingOf_append (xs ys : List ParsedCommand) :
    nestingOf (xs ++ ys) = max (nestingOf xs) (nestingOf ys) := by
  induction xs with
  | nil => simp [nestingOf]
  | cons x xs ih =>
    cases x
    simp [nestingOf, ih, max_assoc]

theorem nestingIn_append (xs ys : List CommandArgument) :
    nestingIn (xs ++ ys) = max (nestingIn xs) (nestingIn ys) := by
  induction xs with
  | nil => simp [nestingIn]
  | cons x xs ih => simp [nestingIn, ih, max_assoc]

theorem nestingIn_map_drained (arguments : List CommandArgument) :
    nestingIn (arguments.map .drained) = nestingIn arguments := by
  induction arguments with
  | nil => rfl
  | cons a arguments ih =>
    have ha : nestingArgument a.drained = nestingArgument a := by
      rcases a with _ | ⟨⟨_, _, _⟩⟩ <;> rfl
    simp [nestingIn, ha, ih]

/-- An assignment made by a word of the form `name=value`. -/
def EnvironmentAssignment.IsWord (a : EnvironmentAssignment) : Prop :=
  ∃ value : String, isParseTimeAssignment value.toList = true ∧ a = .fromEquals value a.hidden

theorem isWord_fromEquals {value : String} (h : isParseTimeAssignment value.toList = true)
    (hidden : Bool) : (EnvironmentAssignment.fromEquals value hidden).IsWord :=
  ⟨value, h, rfl⟩

/-- Arguments as they are read : nested lists carry nothing but their own assignments. -/
structure WellReadArguments (d : ℕ) (arguments : List CommandArgument) : Prop where
  carried : carriedIn arguments = []
  words : ∀ a ∈ arguments.flatMap CommandArgument.assignments, a.IsWord
  nesting : nestingIn arguments ≤ d

/-- A list as it is read. -/
structure WellRead (d : ℕ) (p : ParsedCommands) : Prop where
  carried : p.carried = []
  words : ∀ a ∈ p.assignments, a.IsWord
  nesting : p.nesting ≤ d

variable {d : ℕ} {p q : ParsedCommands} {arguments : List CommandArgument}

theorem wellReadArguments_nil : WellReadArguments d [] :=
  ⟨rfl, fun _ ha => by simp at ha, zero_le d⟩

theorem WellReadArguments.concat_string (h : WellReadArguments d arguments) (value : String) :
    WellReadArguments d (arguments ++ [.string value]) := by
  refine ⟨?_, fun a ha => h.words a ?_, ?_⟩
  · exact (collectIn_append ..).trans (append_eq_nil_iff.mpr ⟨h.carried, rfl⟩)
  · simpa [CommandArgument.assignments] using ha
  · rw [nestingIn_append]
    exact max_le h.nesting (by simp [nestingIn, nestingArgument])

theorem WellReadArguments.concat_commands (h : WellReadArguments (d + 1) arguments)
    (hp : WellRead d p) : WellReadArguments (d + 1) (arguments ++ [.commands p]) := by
  refine ⟨?_, fun a ha => ?_, ?_⟩
  · exact (collectIn_append ..).trans
      (append_eq_nil_iff.mpr ⟨h.carried, (append_nil _).trans hp.carried⟩)
  · rw [flatMap_append, mem_append] at ha
    exact ha.elim (h.words a) fun ha => hp.words a (by simpa [CommandArgument.assignments] using ha)
  · rw [nestingIn_append]
    exact max_le h.nesting (by simp [nestingIn, nestingArgument, hp.nesting])

theorem WellRead.mono (h : WellRead d p) {d' : ℕ} (hle : d ≤ d') : WellRead d' p :=
  ⟨h.carried, h.words, h.nesting.trans hle⟩

theorem wellRead_withGrouping (grouping : CommandGrouping) : WellRead d (.withGrouping grouping) :=
  ⟨rfl, fun _ ha => by simp [ParsedCommands.withGrouping] at ha, zero_le d⟩

theorem WellRead.pushAssignment (h : WellRead d p) {a : EnvironmentAssignment} (ha : a.IsWord) :
    WellRead d (p.pushAssignment a) := by
  refine ⟨(collect_pushAssignment _ p a).trans h.carried, fun b hb => ?_, ?_⟩
  · rcases mem_append.mp hb with hb | hb
    · exact h.words b hb
    · exact mem_singleton.mp hb ▸ ha
  · rw [nesting_eq]
    exact (nesting_eq p).ge.trans h.nesting

theorem WellRead.pushCommand (h : WellRead d p) {name : String} {start line : ℕ}
    (ha : WellReadArguments d arguments) :
    WellRead d (p.pushCommand (.mk name arguments start line)) := by
  refine ⟨?_, fun a hmem => ?_, ?_⟩
  · rw [carried_pushCommand, h.carried]
    exact ha.carried
  · exact (mem_append.mp hmem).elim (h.words a) (ha.words a)
  · rw [nesting_eq, ParsedCommands.pushCommand]
    simp only [ParsedCommand.drainNestedAssignmentsInto, ParsedCommands.commands_mk,
      nestingOf_append, nestingOf, ParsedCommand.arguments_mk, nestingIn_map_drained, ← nesting_eq]
    exact max_le h.nesting (max_le ha.nesting (zero_le d))

theorem WellRead.append (hp : WellRead d p) (hq : WellRead d q) : WellRead d (p.append q) := by
  refine ⟨?_, fun a ha => ?_, ?_⟩
  · rw [ParsedCommands.carried, collect_append]
    exact append_eq_nil_iff.mpr ⟨hp.carried, hq.carried⟩
  · exact (mem_append.mp ha).elim (hp.words a) (hq.words a)
  · rw [nesting_eq, ParsedCommands.append, ParsedCommands.commands_mk, nestingOf_append,
      ← nesting_eq, ← nesting_eq]
    exact max_le hp.nesting hq.nesting

/-! ## Tokens -/

theorem isParseTimeAssignment_of_classifyWord {word : List Char} {value : String}
    (h : classifyWord word = .equals value) : isParseTimeAssignment value.toList = true := by
  unfold classifyWord at h
  split_ifs at h with hw
  rw [← LexToken.equals.inj h, String.toList_ofList]
  exact hw

namespace Lexer

variable {lexer lexer' : Lexer} {token : LexToken} {value : String}

variable {r : LexToken × Lexer}

theorem readPercentWord_ne_equals (h : lexer.readPercentWord = .ok r)
    (value : String) : r.1 ≠ .equals value := by
  unfold readPercentWord at h
  dsimp only at h
  split_ifs at h <;> cases h <;> simp

theorem readHash_ne_equals {condition : Bool}
    (h : lexer.readHash condition = .ok r) (value : String) : r.1 ≠ .equals value := by
  unfold readHash at h
  dsimp only at h
  split_ifs at h
  · obtain ⟨_, -, h⟩ := bind_eq_ok h
    cases h
    simp
  · obtain ⟨_, -, h⟩ := bind_eq_ok h
    cases h
    simp
  all_goals
    cases h
    simp

/-- Only words of the form `name=value` are read as assignments. -/
theorem isParseTimeAssignment_of_nextToken {t : SpannedToken}
    (h : lexer.nextToken = .ok (t, lexer')) (hval : t.token = .equals value) :
    isParseTimeAssignment value.toList = true := by
  unfold nextToken at h
  dsimp only at h
  split at h
  · split_ifs at h <;> cases h <;> simp [spanned] at hval
  · obtain ⟨⟨token, l⟩, hrd, h⟩ := bind_eq_ok h
    cases h
    subst hval
    unfold readTokenAt at hrd
    split_ifs at hrd
    any_goals cases hrd
    · exact absurd rfl (readHash_ne_equals hrd value)
    · exact absurd rfl (readPercentWord_ne_equals hrd value)
    · obtain ⟨⟨word, l'⟩, -, hrd⟩ := bind_eq_ok hrd
      simp only [ok.injEq, Prod.mk.injEq] at hrd
      exact isParseTimeAssignment_of_classifyWord hrd.1

end Lexer

namespace GrammarParser

/-- The depth of the parser, and a token ahead that is one of the lexer. -/
structure At (k : ℕ) (g : GrammarParser) : Prop where
  depth : g.depth = k
  peeked : ∀ t value, g.peeked = some t → t.token = .equals value →
    isParseTimeAssignment value.toList = true

variable {k : ℕ} {g g' : GrammarParser} {token : LexToken} {value msg : String}

theorem At.peekToken (h : At k g) {t : SpannedToken} (hpk : g.peekToken = .ok (t, g')) :
    At k g' ∧ ∀ value, t.token = .equals value → isParseTimeAssignment value.toList = true := by
  unfold GrammarParser.peekToken at hpk
  split at hpk
  · rename_i hpeeked
    cases hpk
    exact ⟨h, fun value => h.peeked t value hpeeked⟩
  · obtain ⟨⟨t', lexer⟩, hnx, hpk⟩ := bind_eq_ok hpk
    cases hpk
    have hvalid : ∀ value, t.token = .equals value → isParseTimeAssignment value.toList = true :=
      fun value => Lexer.isParseTimeAssignment_of_nextToken hnx
    refine ⟨⟨h.depth, fun s value hs => ?_⟩, hvalid⟩
    obtain rfl := some.inj hs
    exact hvalid value

theorem At.peek (h : At k g) (hpk : g.peek = .ok (token, g')) :
    At k g' ∧ ∀ value, token = .equals value → isParseTimeAssignment value.toList = true := by
  obtain ⟨⟨t, g₁⟩, ht, hpk⟩ := bind_eq_ok hpk
  cases hpk
  exact h.peekToken ht

theorem At.advance (h : At k g) (hadv : g.advance = .ok g') : At k g' := by
  obtain ⟨⟨t, g₁⟩, ht, hadv⟩ := bind_eq_ok hadv
  cases hadv
  exact ⟨(h.peekToken ht).1.depth, fun _ _ hn => by cases hn⟩

theorem fail_ne_ok {α : Type} {a : α} : g.fail msg ≠ .ok a := by
  intro h
  obtain ⟨_, -, h⟩ := bind_eq_ok h
  cases h

theorem At.expect (h : At k g) {expected : LexToken} (hexp : g.expect expected msg = .ok g') :
    At k g' := by
  obtain ⟨⟨t, g₁⟩, ht, hexp⟩ := bind_eq_ok hexp
  dsimp only at hexp
  split_ifs at hexp
  · exact (h.peek ht).1.advance hexp
  · exact absurd hexp fail_ne_ok

theorem At.expectTokenWithLine (h : At k g) {r : String × ℕ}
    (hexp : g.expectTokenWithLine msg = .ok (r, g')) : At k g' := by
  obtain ⟨⟨t, g₁⟩, ht, hexp⟩ := bind_eq_ok hexp
  dsimp only at hexp
  split at hexp
  · obtain ⟨g₂, hadv, hexp⟩ := bind_eq_ok hexp
    cases hexp
    exact (h.peekToken ht).1.advance hadv
  · cases hexp

theorem At.expectEquals (h : At k g) (hexp : g.expectEquals msg = .ok (value, g')) :
    At k g' ∧ isParseTimeAssignment value.toList = true := by
  obtain ⟨⟨t, g₁⟩, ht, hexp⟩ := bind_eq_ok hexp
  dsimp only at hexp
  split at hexp
  · obtain ⟨g₂, hadv, hexp⟩ := bind_eq_ok hexp
    cases hexp
    exact ⟨(h.peek ht).1.advance hadv, (h.peek ht).2 value rfl⟩
  · exact absurd hexp fail_ne_ok

theorem At.expectConditionValue (h : At k g)
    (hexp : g.expectConditionValue msg = .ok (value, g')) : At k g' := by
  obtain ⟨⟨t, g₁⟩, ht, hexp⟩ := bind_eq_ok hexp
  dsimp only at hexp
  split at hexp
  rotate_left 2
  · exact absurd hexp fail_ne_ok
  -- a token and a format are taken alike
  all_goals
    obtain ⟨g₂, hadv, hexp⟩ := bind_eq_ok hexp
    cases hexp
    exact (h.peek ht).1.advance hadv

theorem At.ensureStatementBoundary (h : At k g)
    (hens : g.ensureStatementBoundary msg = .ok g') : At k g' := by
  obtain ⟨⟨t, g₁⟩, ht, hens⟩ := bind_eq_ok hens
  dsimp only at hens
  split_ifs at hens
  · cases hens
    exact (h.peek ht).1
  · exact absurd hens fail_ne_ok

theorem At.putAssignment (h : At k g) (a : EnvironmentAssignment) : At k (g.putAssignment a) :=
  ⟨h.depth, h.peeked⟩

theorem At.parseHiddenAssignment (h : At k g) {active : Bool} {a : Option EnvironmentAssignment}
    (hp : g.parseHiddenAssignment active = .ok (a, g')) : At k g' ∧ ∀ b, a = some b → b.IsWord := by
  obtain ⟨g₁, h₁, hp⟩ := bind_eq_ok hp
  obtain ⟨⟨equals, g₂⟩, h₂, hp⟩ := bind_eq_ok hp
  obtain ⟨g₃, h₃, hp⟩ := bind_eq_ok hp
  have hg₂ := (h.expect h₁).expectEquals h₂
  have hg₃ := hg₂.1.ensureStatementBoundary h₃
  split_ifs at hp
  · cases hp
    refine ⟨hg₃.putAssignment _, fun b hb => ?_⟩
    obtain rfl := some.inj hb
    exact isWord_fromEquals hg₂.2 true
  · cases hp
    exact ⟨hg₃, fun b hb => by cases hb⟩

/-! ## Statements -/

mutual

theorem wellRead_parseUntil : ∀ (n : ℕ) {stops : List ConditionStop} {brace active : Bool}
    {k : ℕ} {g g' : GrammarParser} {p : ParsedCommands}, At k g →
    parseUntil n stops brace active g = .ok (p, g') →
    At k g' ∧ k + 1 ≤ maxNestingDepth ∧ WellRead (maxNestingDepth - (k + 1)) p
  | 0, _, _, _, _, _, _, _, _, h => absurd h fail_ne_ok
  | n + 1, stops, brace, active, k, g, g', p, hg, h => by
    rw [parseUntil] at h
    split_ifs at h with hdep
    · split at h <;> cases h
    · obtain ⟨⟨commands, g₁⟩, h₁, h⟩ := bind_eq_ok h
      cases h
      have hle : k + 1 ≤ maxNestingDepth := hg.depth ▸ not_lt.mp hdep
      have hdeeper : At (k + 1) { g with depth := g.depth + 1 } :=
        ⟨congrArg (· + 1) hg.depth, hg.peeked⟩
      obtain ⟨hg₁, hp⟩ := wellRead_parseStatements n hdeeper (wellRead_withGrouping _) h₁
      exact ⟨⟨congrArg (· - 1) hg₁.depth, hg₁.peeked⟩, hle, hp⟩

theorem wellRead_parseStatements : ∀ (n : ℕ) {stops : List ConditionStop} {brace active : Bool}
    {k : ℕ} {g g' : GrammarParser} {acc p : ParsedCommands}, At k g →
    WellRead (maxNestingDepth - k) acc →
    parseStatements n stops brace active acc g = .ok (p, g') →
    At k g' ∧ WellRead (maxNestingDepth - k) p
  | 0, _, _, _, _, _, _, _, _, _, _, h => absurd h fail_ne_ok
  | n + 1, stops, brace, active, k, g, g', acc, p, hg, hacc, h => by
    obtain ⟨⟨token, g₁⟩, h₁, h⟩ := bind_eq_ok h
    have hg₁ := (hg.peek h₁).1
    cases token with
    | eof =>
      cases h
      exact ⟨hg₁, hacc⟩
    | closeBrace | elseDirective | elifDirective | endifDirective =>
      dsimp only at h
      split_ifs at h
      · cases h
        exact ⟨hg₁, hacc⟩
      · exact absurd h fail_ne_ok
    | newline | semicolon =>
      obtain ⟨g₂, h₂, h⟩ := bind_eq_ok h
      exact wellRead_parseStatements n (hg₁.advance h₂) hacc h
    | hidden =>
      obtain ⟨⟨assignment, g₂⟩, h₂, h⟩ := bind_eq_ok h
      obtain ⟨hg₂, hw⟩ := hg₁.parseHiddenAssignment h₂
      refine wellRead_parseStatements n hg₂ ?_ h
      cases assignment with
      | none => exact hacc
      | some a => exact hacc.pushAssignment (hw a rfl)
    | equals value =>
      obtain ⟨⟨⟨assignment, command⟩, g₂⟩, h₂, h⟩ := bind_eq_ok h
      obtain ⟨hg₂, hw, ha⟩ := wellRead_parseAssignmentOrCommand n hg₁ h₂
      refine wellRead_parseStatements n hg₂ ?_ h
      have hpu : WellRead (maxNestingDepth - k) (assignment.elim acc acc.pushAssignment) := by
        cases assignment with
        | none => exact hacc
        | some a => exact hacc.pushAssignment (hw a rfl)
      split_ifs
      · rcases command with _ | ⟨name, arguments, start, line⟩
        · exact hpu
        · exact hpu.pushCommand (ha _ rfl)
      · exact hpu
    | ifDirective =>
      obtain ⟨⟨selected, g₂⟩, h₂, h⟩ := bind_eq_ok h
      obtain ⟨hg₂, hsel⟩ := wellRead_parseCondition n hg₁ h₂
      exact wellRead_parseStatements n hg₂ (hacc.append hsel) h
    | token value =>
      obtain ⟨⟨⟨name, arguments, start, line⟩, g₂⟩, h₂, h⟩ := bind_eq_ok h
      obtain ⟨hg₂, ha⟩ := wellRead_parseCommand n hg₁ h₂
      refine wellRead_parseStatements n hg₂ ?_ h
      split_ifs
      · exact hacc.pushCommand ha
      · exact hacc
    | openBrace | format value => exact absurd h fail_ne_ok

theorem wellRead_parseAssignmentOrCommand : ∀ (n : ℕ) {active : Bool} {k : ℕ}
    {g g' : GrammarParser} {a : Option EnvironmentAssignment} {c : Option ParsedCommand}, At k g →
    parseAssignmentOrCommand n active g = .ok ((a, c), g') →
    At k g' ∧ (∀ b, a = some b → b.IsWord) ∧
      ∀ c', c = some c' → WellReadArguments (maxNestingDepth - k) c'.arguments
  | 0, _, _, _, _, _, _, _, h => absurd h fail_ne_ok
  | n + 1, active, k, g, g', a, c, hg, h => by
    obtain ⟨⟨equals, g₁⟩, h₁, h⟩ := bind_eq_ok h
    obtain ⟨hg₁, hval⟩ := hg.expectEquals h₁
    obtain ⟨⟨token, g₂⟩, h₂, h⟩ := bind_eq_ok h
    have hput : At k (if active then g₁.putAssignment (.fromEquals equals false) else g₁) := by
      split_ifs
      · exact hg₁.putAssignment _
      · exact hg₁
    have hg₂ := (hput.peek h₂).1
    have hw : ∀ b, (if active then some (EnvironmentAssignment.fromEquals equals false)
        else none) = some b → b.IsWord := by
      intro b hb
      split_ifs at hb
      obtain rfl := some.inj hb
      exact isWord_fromEquals hval false
    dsimp only at h
    split at h
    · obtain ⟨⟨command, g₃⟩, h₃, h⟩ := bind_eq_ok h
      cases h
      obtain ⟨hg₃, ha⟩ := wellRead_parseCommand n hg₂ h₃
      refine ⟨hg₃, hw, fun c' hc' => ?_⟩
      obtain rfl := some.inj hc'
      exact ha
    · split at h
      · cases h
        exact ⟨hg₂, hw, fun c' hc' => by cases hc'⟩
      · exact absurd h fail_ne_ok

theorem wellRead_parseCondition : ∀ (n : ℕ) {active : Bool} {k : ℕ} {g g' : GrammarParser}
    {p : ParsedCommands}, At k g → parseCondition n active g = .ok (p, g') →
    At k g' ∧ WellRead (maxNestingDepth - k) p
  | 0, _, _, _, _, _, _, h => absurd h fail_ne_ok
  | n + 1, active, k, g, g', p, hg, h => by
    obtain ⟨g₁, h₁, h⟩ := bind_eq_ok h
    obtain ⟨⟨condition, g₂⟩, h₂, h⟩ := bind_eq_ok h
    obtain ⟨⟨branch, g₃⟩, h₃, h⟩ := bind_eq_ok h
    obtain ⟨⟨⟨selected, matched⟩, g₄⟩, h₄, h⟩ := bind_eq_ok h
    obtain ⟨⟨token, g₅⟩, h₅, h⟩ := bind_eq_ok h
    have hg₂ := (hg.expect h₁).expectConditionValue h₂
    obtain ⟨hg₃, -, hbr⟩ := wellRead_parseUntil n hg₂ h₃
    have hdep : maxNestingDepth - (k + 1) ≤ maxNestingDepth - k := by omega
    obtain ⟨hg₄, hsel⟩ := wellRead_parseElifs n hg₃ (by
      split_ifs
      · exact hbr.mono hdep
      · exact wellRead_withGrouping _) h₄
    have hg₅ := (hg₄.peek h₅).1
    dsimp only at h
    split at h
    · obtain ⟨g₆, h₆, h⟩ := bind_eq_ok h
      obtain ⟨⟨branch, g₇⟩, h₇, h⟩ := bind_eq_ok h
      obtain ⟨g₈, h₈, h⟩ := bind_eq_ok h
      obtain ⟨hg₇, -, hbr⟩ := wellRead_parseUntil n (hg₅.advance h₆) h₇
      cases h
      refine ⟨hg₇.expect h₈, ?_⟩
      split_ifs
      · exact hbr.mono hdep
      · exact hsel
    · obtain ⟨g₆, h₆, h⟩ := bind_eq_ok h
      cases h
      exact ⟨hg₅.expect h₆, hsel⟩

theorem wellRead_parseElifs : ∀ (n : ℕ) {active matched matched' : Bool} {k : ℕ}
    {g g' : GrammarParser} {selected p : ParsedCommands}, At k g →
    WellRead (maxNestingDepth - k) selected →
    parseElifs n active selected matched g = .ok ((p, matched'), g') →
    At k g' ∧ WellRead (maxNestingDepth - k) p
  | 0, _, _, _, _, _, _, _, _, _, _, h => absurd h fail_ne_ok
  | n + 1, active, matched, matched', k, g, g', selected, p, hg, hsel, h => by
    obtain ⟨⟨token, g₁⟩, h₁, h⟩ := bind_eq_ok h
    have hg₁ := (hg.peek h₁).1
    dsimp only at h
    split_ifs at h
    · obtain ⟨g₂, h₂, h⟩ := bind_eq_ok h
      obtain ⟨⟨condition, g₃⟩, h₃, h⟩ := bind_eq_ok h
      obtain ⟨⟨branch, g₄⟩, h₄, h⟩ := bind_eq_ok h
      obtain ⟨hg₄, -, hbr⟩ :=
        wellRead_parseUntil n ((hg₁.advance h₂).expectConditionValue h₃) h₄
      refine wellRead_parseElifs n hg₄ ?_ h
      split_ifs
      · exact hbr.mono (by omega)
      · exact hsel
    · cases h
      exact ⟨hg₁, hsel⟩

theorem wellRead_parseCommand : ∀ (n : ℕ) {active : Bool} {k : ℕ} {g g' : GrammarParser}
    {c : ParsedCommand}, At k g → parseCommand n active g = .ok (c, g') →
    At k g' ∧ WellReadArguments (maxNestingDepth - k) c.arguments
  | 0, _, _, _, _, _, _, h => absurd h fail_ne_ok
  | n + 1, active, k, g, g', c, hg, h => by
    obtain ⟨⟨⟨name, start⟩, g₁⟩, h₁, h⟩ := bind_eq_ok h
    obtain ⟨⟨arguments, g₂⟩, h₂, h⟩ := bind_eq_ok h
    obtain ⟨hg₂, ha⟩ :=
      wellRead_parseArguments n (hg.expectTokenWithLine h₁) wellReadArguments_nil h₂
    dsimp only at h
    split at h
    · cases h
      exact ⟨hg₂, ha⟩
    · obtain ⟨⟨t, g₃⟩, h₃, h⟩ := bind_eq_ok h
      cases h
      exact ⟨(hg₂.peekToken h₃).1, ha⟩

theorem wellRead_parseArguments : ∀ (n : ℕ) {active : Bool} {k : ℕ} {g g' : GrammarParser}
    {acc arguments : List CommandArgument}, At k g → WellReadArguments (maxNestingDepth - k) acc →
    parseArguments n active acc g = .ok (arguments, g') →
    At k g' ∧ WellReadArguments (maxNestingDepth - k) arguments
  | 0, _, _, _, _, _, _, _, _, h => absurd h fail_ne_ok
  | n + 1, active, k, g, g', acc, arguments, hg, hacc, h => by
    obtain ⟨⟨token, g₁⟩, h₁, h⟩ := bind_eq_ok h
    have hg₁ := (hg.peek h₁).1
    dsimp only at h
    split at h
    · obtain ⟨g₂, h₂, h⟩ := bind_eq_ok h
      exact wellRead_parseArguments n (hg₁.advance h₂) (hacc.concat_string _) h
    · obtain ⟨g₂, h₂, h⟩ := bind_eq_ok h
      exact wellRead_parseArguments n (hg₁.advance h₂) (hacc.concat_string _) h
    · obtain ⟨g₂, h₂, h⟩ := bind_eq_ok h
      obtain ⟨⟨nested, g₃⟩, h₃, h⟩ := bind_eq_ok h
      obtain ⟨g₄, h₄, h⟩ := bind_eq_ok h
      obtain ⟨hg₃, hle, hnest⟩ := wellRead_parseUntil n (hg₁.advance h₂) h₃
      have hdep : maxNestingDepth - k = maxNestingDepth - (k + 1) + 1 := by omega
      refine wellRead_parseArguments n (hg₃.expect h₄) ?_ h
      rw [hdep] at hacc ⊢
      exact hacc.concat_commands hnest
    all_goals first
      | exact absurd h fail_ne_ok
      | (cases h
         exact ⟨hg₁, hacc⟩)

end

/-- What a parser reads that has read nothing yet. -/
theorem wellRead_parseAll (hdep : g.depth = 0) (hpk : g.peeked = none)
    (h : g.parseAll = .ok p) : WellRead (maxNestingDepth - 1) p := by
  obtain ⟨⟨commands, g'⟩, hp, h⟩ := bind_eq_ok h
  cases h
  exact (wellRead_parseUntil _ ⟨hdep, fun t _ ht => by simp [hpk] at ht⟩ hp).2.2

end GrammarParser

end Rmux
