import Rmux.CommandRereading

/-!
# Parsers without aliases of the user

Full names are resolved to themselves by a parser that has the builtin aliases only
(`resolve_writable`), and the length check does not look at lines
(`ensureParsedCommandLengths_iff`). What such a parser returns has only assignments that were read,
none of them in nested lists, and nests no deeper than the grammar allows (`parsed_of_parse`).
-/

namespace Rmux

open Lexer GrammarParser List Except

/-! ## Full names are resolved to themselves -/

section Resolve

/-- Full names are no aliases. -/
def Replacement.KeepsFull (replacement : Replacement) : Prop :=
  ∀ {assignments : List EnvironmentAssignment} {name : String}, IsFull name →
    replacement assignments name = none

variable {replacement : Replacement}

mutual

theorem resolveCommands_writable (hf : replacement.KeepsFull)
    (asg : List EnvironmentAssignment) :
    ∀ {cs : List ParsedCommand} (output : ParsedCommands), Writable cs →
    ∃ p, resolveCommands [] replacement asg cs output = .ok p ∧
      bareOf p.commands = bareOf output.commands ++ bareOf cs ∧ p.assignments = output.assignments
  | [], output, _ => ⟨output, rfl, (List.append_nil _).symm, rfl⟩
  | .mk name args startLine line :: cs, output, hcs => by
    obtain ⟨hnm, hargs, hcs⟩ := writable_cons.mp hcs
    obtain ⟨args', hres, hbare⟩ := resolveArguments_writable hf hargs
    obtain ⟨e, hlk, hent⟩ := (fullName_facts hnm).lookup line
    have has : args'.flatMap CommandArgument.assignments = [] := by
      rw [← flatMap_assignments_bareIn, hbare, flatMap_assignments_bareIn, hargs.assignments]
    obtain ⟨p, hp, hc, ha⟩ := resolveCommands_writable hf
      asg (output.pushCommand (.mk e.name args' startLine line)) hcs
    refine ⟨p, ?_, ?_, ?_⟩
    · rw [resolveCommands, hf hnm]
      simp only [hres, hlk, ok_bind, hp]
    · rw [hc, pushCommand_eq output has]
      simp [bareOf_append, bareOf, hbare, hent]
    · rw [ha, pushCommand_eq output has, ParsedCommands.assignments_mk]

theorem resolveArguments_writable (hf : replacement.KeepsFull) :
    ∀ {args : List CommandArgument}, WritableArguments args →
    ∃ args', resolveArguments [] replacement args = .ok args' ∧
      bareIn args' = bareIn args
  | [], _ => ⟨[], rfl, rfl⟩
  | .string value :: args, hargs => by
    obtain ⟨args', hres, hbare⟩ :=
      resolveArguments_writable hf (writableArguments_cons_string.mp hargs)
    refine ⟨.string value :: args', ?_, by rw [bareIn, bareIn, hbare]⟩
    simp only [resolveArguments, resolveArgument, ok_bind, hres]
  | .commands (.mk commands assignments grouping) :: args, hargs => by
    obtain ⟨rfl, hc, hargs⟩ := writableArguments_cons_commands.mp hargs
    obtain ⟨args', hres, hbare⟩ := resolveArguments_writable hf hargs
    obtain ⟨p, hp, hbare', ha⟩ := resolveCommands_writable hf [] (.mk [] [] grouping) hc
    refine ⟨.commands p :: args', ?_, ?_⟩
    · simp only [resolveArguments, resolveArgument, resolve, hp, ok_bind, hres]
    · rw [bareIn, bareIn, hbare, bareArgument, bareArgument, bare_eq, hbare', ha]
      rfl

end

theorem resolve_writable (hf : replacement.KeepsFull) {raw : ParsedCommands}
    (hraw : Writable raw.commands) :
    ∃ p, resolve [] replacement raw = .ok p ∧ p.bare = raw.bare := by
  obtain ⟨commands, asg, g⟩ := raw
  obtain ⟨p, hp, hbare, ha⟩ := resolveCommands_writable hf asg (.mk [] asg g) hraw
  refine ⟨p, hp, ?_⟩
  rw [bare_eq, hbare, ha]
  rfl

end Resolve

/-! ## Lengths -/

section Lengths

variable {maxCommandBytes : ℕ}

theorem toOption_ensureCommandLength (bs line line' : ℕ) :
    (ensureCommandLength bs line maxCommandBytes).toOption =
      (ensureCommandLength bs line' maxCommandBytes).toOption := by
  unfold ensureCommandLength
  split_ifs <;> rfl

mutual

/-- Lines stand in the errors of the length check only. -/
theorem toOption_ensureEachLength : ∀ cs : List ParsedCommand,
    (ensureEachLength maxCommandBytes (bareOf cs)).toOption =
      (ensureEachLength maxCommandBytes cs).toOption
  | [] => rfl
  | .mk name arguments _ line :: cs => by
    rw [bareOf, ensureEachLength, ensureEachLength, ensureParsedCommandLength,
      ensureParsedCommandLength]
    simp only [Except.toOption_bind, toOption_argumentBytes _ arguments,
      toOption_ensureEachLength cs, toOption_ensureCommandLength _ 0 line]

theorem toOption_argumentBytes : ∀ (bs : ℕ) (args : List CommandArgument),
    (argumentBytes maxCommandBytes bs (bareIn args)).toOption =
      (argumentBytes maxCommandBytes bs args).toOption
  | _, [] => rfl
  | bs, .string value :: args => by
    rw [bareIn, argumentBytes, argumentBytes, bareArgument]
    simp only [Except.toOption_bind, toOption_argumentBytes _ args]
  | bs, .commands (.mk commands _ _) :: args => by
    rw [bareIn, argumentBytes, argumentBytes, bareArgument, ParsedCommands.bare, oneArgumentBytes,
      oneArgumentBytes, ensureParsedCommandLengths, ensureParsedCommandLengths]
    simp only [Except.toOption_bind, toOption_argumentBytes _ args,
      toOption_ensureEachLength commands]

end

theorem ParsedCommands.Same.ensureParsedCommandLengths_iff {p q : ParsedCommands} (h : p.Same q) :
    ensureParsedCommandLengths maxCommandBytes p = .ok () ↔
      ensureParsedCommandLengths maxCommandBytes q = .ok () := by
  have heq : ∀ p : ParsedCommands, (ensureParsedCommandLengths maxCommandBytes p.bare).toOption =
      (ensureParsedCommandLengths maxCommandBytes p).toOption := by
    rintro ⟨commands, asg, g⟩
    exact toOption_ensureEachLength commands
  rw [← toOption_eq_some_iff, ← heq, h, heq, toOption_eq_some_iff]

end Lengths

/-! ## Aliases without assignments and braces -/

section Flat

/-- Aliases stand for lists without assignments and braces. -/
def Replacement.IsFlat (replacement : Replacement) : Prop :=
  ∀ {assignments : List EnvironmentAssignment} {name : String} {replaced : ParsedCommands},
    replacement assignments name = some (.ok replaced) →
      replaced.assignments = [] ∧ replaced.nesting = 0

variable {replacement : Replacement}

mutual

theorem hoistedOf_eq_nil (hfl : replacement.IsFlat) {asg : List EnvironmentAssignment} :
    ∀ {cs : List ParsedCommand}, carriedOf cs = [] → hoistedOf replacement asg cs = []
  | [], _ => rfl
  | .mk name arguments _ _ :: cs, hcs => by
    obtain ⟨ha, hcs⟩ := append_eq_nil_iff.mp hcs
    obtain ⟨has, hinn⟩ := append_eq_nil_iff.mp ha
    rw [hoistedOf, hoistedOf_eq_nil hfl hcs, append_nil]
    cases hrepl : replacement asg name with
    | none => exact hoistedIn_eq_nil hfl has hinn
    | some r =>
      cases r with
      | error e => rfl
      | ok replaced => exact (hfl hrepl).1

theorem hoistedIn_eq_nil (hfl : replacement.IsFlat) : ∀ {args : List CommandArgument},
    args.flatMap CommandArgument.assignments = [] → carriedIn args = [] →
    hoistedIn replacement args = []
  | [], _, _ => rfl
  | .string _ :: args, has, hcar => by
    have hr : hoistedIn replacement args = [] :=
      hoistedIn_eq_nil hfl has hcar
    rw [hoistedIn, hr]
    rfl
  | .commands (.mk commands assignments _) :: args, has, hcar => by
    obtain ⟨h₁, h₂⟩ := append_eq_nil_iff.mp has
    obtain ⟨h₃, h₄⟩ := append_eq_nil_iff.mp hcar
    rw [hoistedIn, hoistedIn_eq_nil hfl h₂ h₄, hoistedArgument, hoisted, hoistedOf_eq_nil hfl h₃,
      append_nil, append_nil]
    exact h₁

end

theorem hoisted_eq (hfl : replacement.IsFlat) {raw : ParsedCommands} (hraw : raw.carried = []) :
    hoisted replacement raw = raw.assignments := by
  obtain ⟨commands, asg, g⟩ := raw
  rw [hoisted, hoistedOf_eq_nil hfl hraw, append_nil]
  rfl

theorem nestingOf_appendToLast_le (args : List CommandArgument) : ∀ cs : List ParsedCommand,
    nestingOf (appendToLast args cs) ≤ max (nestingOf cs) (nestingIn args)
  | [] => Nat.zero_le _
  | [.mk _ inner _ _] => by
    simp [appendToLast, nestingOf, nestingIn_append]
  | .mk _ inner _ _ :: c :: cs => by
    have := nestingOf_appendToLast_le args (c :: cs)
    rw [appendToLast, nestingOf, nestingOf]
    · omega
    · simp

theorem nestingOf_map_lines (start line : ℕ) (cs : List ParsedCommand) :
    nestingOf (cs.map fun r => .mk r.name r.arguments start line) = nestingOf cs := by
  induction cs with
  | nil => rfl
  | cons c cs ih =>
    cases c
    simp [nestingOf, ih]

mutual

variable {exactCommands : List CommandEntry}

/-- Resolving nests nothing deeper. -/
theorem nestingOf_resolveCommands (hfl : replacement.IsFlat)
    {asg : List EnvironmentAssignment} : ∀ {cs : List ParsedCommand} {output p : ParsedCommands},
    resolveCommands exactCommands replacement asg cs output = .ok p →
    nestingOf p.commands ≤ max (nestingOf output.commands) (nestingOf cs)
  | [], output, p, h => by
    obtain rfl := ok.inj h
    exact le_max_left _ _
  | .mk name args start line :: cs, output, p, h => by
    rw [resolveCommands] at h
    rw [nestingOf]
    cases hrepl : replacement asg name with
    | none =>
      rw [hrepl] at h
      obtain ⟨args', h₁, h⟩ := bind_eq_ok h
      obtain ⟨entry, -, h⟩ := bind_eq_ok h
      have hr := nestingOf_resolveCommands hfl h
      have hinn := nestingIn_resolveArguments hfl h₁
      simp only [ParsedCommands.pushCommand, ParsedCommand.drainNestedAssignmentsInto,
        ParsedCommands.commands_mk, nestingOf_append, nestingOf, ParsedCommand.arguments_mk,
        nestingIn_map_drained] at hr
      omega
    | some result =>
      rw [hrepl] at h
      cases result with
      | error e => cases h
      | ok replaced =>
        have hr := nestingOf_resolveCommands hfl h
        have hz := (hfl hrepl).2
        rw [nesting_eq] at hz
        have hl := nestingOf_appendToLast_le args
          (replaced.commands.map fun r => .mk r.name r.arguments start line)
        rw [nestingOf_map_lines, hz] at hl
        simp only [ParsedCommands.append, replaceCommand, ParsedCommands.commands_mk,
          nestingOf_append, ParsedCommand.arguments_mk, ParsedCommand.startLine_mk,
          ParsedCommand.line_mk] at hr
        omega

theorem nestingIn_resolveArguments (hfl : replacement.IsFlat) :
    ∀ {args args' : List CommandArgument},
    resolveArguments exactCommands replacement args = .ok args' →
    nestingIn args' ≤ nestingIn args
  | [], _, h => by
    obtain rfl := ok.inj h
    exact le_rfl
  | .string value :: args, _, h => by
    obtain ⟨a', h₁, h⟩ := bind_eq_ok h
    obtain ⟨args', h₂, h⟩ := bind_eq_ok h
    obtain rfl := ok.inj h
    obtain rfl := ok.inj h₁
    have := nestingIn_resolveArguments hfl h₂
    rw [nestingIn, nestingIn]
    omega
  | .commands (.mk commands assignments grouping) :: args, _, h => by
    obtain ⟨a', h₁, h⟩ := bind_eq_ok h
    obtain ⟨args', h₂, h⟩ := bind_eq_ok h
    obtain rfl := ok.inj h
    obtain ⟨p, hp, h₁⟩ := bind_eq_ok h₁
    obtain rfl := ok.inj h₁
    have hfst := nestingOf_resolveCommands hfl hp
    have hos := nestingIn_resolveArguments hfl h₂
    rw [nestingIn, nestingIn, nestingArgument, nestingArgument, nesting_eq, nesting_eq]
    simp only [ParsedCommands.commands_mk, nestingOf] at hfst ⊢
    omega

end

end Flat

/-! ## What a parser without user aliases returns -/

/-- A parser with the builtin aliases only, in some environment, not built for Windows. -/
structure CommandParser.IsStock (parser : CommandParser) : Prop where
  windows : parser.windows = false
  commandAliases : parser.commandAliases = CommandAlias.builtin
  exactCommands : parser.exactCommands = []
  maxCommandBytes : parser.maxCommandBytes = defaultMaxCommandBytes

section Stock

variable {parser : CommandParser} (hparser : parser.IsStock)

include hparser

theorem aliasReplacement_full : parser.aliasReplacement.KeepsFull := by
  intro asg name hnm
  simp [CommandParser.aliasReplacement, CommandParser.findCommandAlias, hparser.commandAliases,
    (fullName_facts hnm).noAlias]

omit hparser in
theorem writable_strings {name : String} (hnm : IsFull name) (args : List String) :
    Writable [.mk name (args.map .string) 0 0] := by
  refine writable_cons.mpr ⟨hnm, ?_, ⟨fun n hn => absurd hn not_mem_nil, rfl⟩⟩
  induction args with
  | nil => exact ⟨fun n hn => absurd hn not_mem_nil, rfl, rfl⟩
  | cons v args ih => exact writableArguments_cons_string.mpr ih

omit hparser in
/-- The text of each builtin alias is that of a list without assignments and braces. -/
theorem builtin_text {a : CommandAlias} (ha : a ∈ CommandAlias.builtin) : ∃ p : ParsedCommands,
    a.value = p.toTmuxReparseString ∧ Writable p.commands ∧ p.assignments = [] ∧ p.nesting = 0 := by
  have hall : ∀ a ∈ CommandAlias.builtin, ∃ x ∈ [("split-window", []), ("show-messages", ["-JT"]),
      ("choose-tree", ["-w"]), ("choose-tree", ["-s"])], IsFull x.1 ∧
        a.value = (ParsedCommands.mk [.mk x.1 (x.2.map .string) 0 0] [] .byLine).toTmuxReparseString ∧
        (ParsedCommands.mk [.mk x.1 (x.2.map .string) 0 0] [] .byLine).nesting = 0 := by
    decide
  obtain ⟨x, -, hf, htext, hnest⟩ := hall a ha
  exact ⟨_, htext, writable_strings hf x.2, rfl, hnest⟩

theorem aliasReplacement_flat : parser.aliasReplacement.IsFlat := by
  intro asg name replaced h
  obtain ⟨v, hval, h⟩ := Option.map_eq_some_iff.mp h
  obtain ⟨raw, hrd, h⟩ := bind_eq_ok h
  rw [hparser.exactCommands] at h
  rw [CommandParser.findCommandAlias, hparser.commandAliases] at hval
  obtain ⟨a, hfind, rfl⟩ := Option.map_eq_some_iff.mp hval
  obtain ⟨q, hq, hwr, has, hnest⟩ :=
    builtin_text (mem_of_find?_eq_some hfind)
  rw [hq] at hrd
  obtain ⟨raw', hraw', hrd⟩ := bind_eq_ok hrd
  obtain ⟨-, -, hrd⟩ := bind_eq_ok hrd
  obtain rfl := ok.inj hrd
  have hwindows : CommandParser.windows { parser with
      environment := parser.environment ++ asg.map fun a => (a.name, a.value) } = false :=
    hparser.windows
  obtain ⟨raw'', hp, hsm⟩ := parseAll_toTmuxReparseString hwindows .oneGroup
    (by simp [has]) hwr (by rw [hnest]; decide)
  obtain rfl := ok.inj (hp.symm.trans hraw')
  obtain ⟨p, hres, hbare⟩ := @resolve_writable (fun _ _ => none) (fun _ => rfl) _ (hsm.writable hwr)
  obtain rfl := ok.inj (hres.symm.trans h)
  have hsm' : p.bare = q.bare := hbare.trans hsm
  exact ⟨by rw [← assignments_bare, hsm', assignments_bare, has],
    by rw [← nesting_bare, hsm', nesting_bare, hnest]⟩

/-- What is known of a list that was parsed. -/
structure Parsed (p : ParsedCommands) : Prop where
  words : ∀ a ∈ p.assignments, a.IsWord
  carried : p.carried = []
  nesting : p.nesting + 1 ≤ maxNestingDepth

theorem parsed_of_parse {input : String} {p : ParsedCommands} (h : parser.parse input = .ok p) :
    Parsed p := by
  obtain ⟨raw, hrd, h⟩ := bind_eq_ok h
  have hraw := wellRead_new hrd
  have hp := resolved_resolve parser.isResolved_aliasReplacement hraw.carried h
  refine ⟨fun a ha => hraw.words a ?_, hp.carried, ?_⟩
  · rwa [hp.assignments, hoisted_eq (aliasReplacement_flat hparser) hraw.carried] at ha
  · obtain ⟨commands, asg, g⟩ := raw
    have hres := nestingOf_resolveCommands (aliasReplacement_flat hparser) h
    have hnest := hraw.nesting
    rw [nesting_eq] at hnest ⊢
    simp only [ParsedCommands.commands_mk, nestingOf] at hres hnest
    have : 1 ≤ maxNestingDepth := by decide
    omega

end Stock

end Rmux
