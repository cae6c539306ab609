import Rmux.CommandParser
import Rmux.CommandReading

/-!
# What resolving leaves

Resolving is to leave a list in which every command has the full name of a table entry, at every
depth, aliases are expanded once everywhere, and the assignments of nested lists are all moved to
the top (`FullyResolved`). `fullyResolved_iff` says exactly when it does. It traces where each
command of the result comes from (`originsOf`, `resolved_resolve`). The arguments of an aliased
command are appended to the text of the alias as they were written
(`resolved_skips_alias_arguments`).
-/

namespace Rmux

open List Except Prod

variable {parser : CommandParser} {raw : ParsedCommands} {s : ArgumentsState} {input : String}
  {g : CommandGrouping}

/-! ## Commands put in the place of others -/

/-- Lines do not matter. -/
theorem collectOf_map_lines {β : Type} (F : String → List CommandArgument → List β)
    (start line : ℕ) (cs : List ParsedCommand) :
    collectOf F (cs.map fun r => .mk r.name r.arguments start line) = collectOf F cs := by
  induction cs with
  | nil => rfl
  | cons c cs ih =>
    cases c
    simp [collectOf, ih]

/-- Arguments behind the last command come after all names there are. -/
theorem namesOf_appendToLast (args : List CommandArgument) : ∀ {cs : List ParsedCommand}, cs ≠ [] →
      namesOf (appendToLast args cs) = namesOf cs ++ namesIn args
  | [.mk _ _ _ _], _ => by
    simp [appendToLast, collectOf, collectIn_append]
  | .mk _ _ _ _ :: c :: cs, _ => by
    simp [appendToLast, collectOf, namesOf_appendToLast args (List.cons_ne_nil c cs)]

theorem carriedOf_appendToLast {args : List CommandArgument}
    (hdr : args.flatMap CommandArgument.assignments = []) (ha : carriedIn args = []) :
    ∀ {cs : List ParsedCommand}, carriedOf cs = [] → carriedOf (appendToLast args cs) = []
  | [], h => h
  | [.mk _ _ _ _], h => by
    simp_all [appendToLast, collectOf, collectIn_append]
  | .mk _ _ _ _ :: c :: cs, h => by
    have hpts := append_eq_nil_iff.mp h
    have hr := carriedOf_appendToLast hdr ha hpts.2
    rw [appendToLast]
    · exact append_eq_nil_iff.mpr ⟨hpts.1, hr⟩
    · simp

/-! ## Origins -/

/-- Where a command of a resolved list comes from : it was looked up in the tables, it stood in the
text of an alias, or it stands as it was written. -/
inductive Origin
  | lookedUp
  | fromAlias
  | asWritten
deriving DecidableEq

section Origins

variable (exactCommands : List CommandEntry) (replacement : Replacement)

/-- The full name of the entry for a name. -/
def fullName (name : String) (line : ℕ) : String :=
  ((lookupCommandAt name line exactCommands).toOption.map CommandEntry.name).getD name

mutual

/-- The names of a resolved list with their origins. -/
def origins : ParsedCommands → List (String × Origin)
  | .mk commands assignments _ => originsOf assignments commands

def originsOf (assignments : List EnvironmentAssignment) :
    List ParsedCommand → List (String × Origin)
  | [] => []
  | .mk name arguments _ line :: cs =>
    (match replacement assignments name with
      | some (.ok replaced) =>
        if replaced.commands.isEmpty then []
        else replaced.names.map (·, .fromAlias) ++ (namesIn arguments).map (·, .asWritten)
      | some (.error _) => []
      | none => (fullName exactCommands name line, .lookedUp) :: originsIn arguments) ++
    originsOf assignments cs

def originsIn : List CommandArgument → List (String × Origin)
  | [] => []
  | a :: arguments => originsArgument a ++ originsIn arguments

def originsArgument : CommandArgument → List (String × Origin)
  | .string _ => []
  | .commands list => origins list

end

mutual

/-- The assignments of a list, with those of its nested lists and of the texts of aliases where they
come. -/
def hoisted : ParsedCommands → List EnvironmentAssignment
  | .mk commands assignments _ => assignments ++ hoistedOf assignments commands

def hoistedOf (assignments : List EnvironmentAssignment) :
    List ParsedCommand → List EnvironmentAssignment
  | [] => []
  | .mk name arguments _ _ :: cs =>
    (match replacement assignments name with
      | some (.ok replaced) => replaced.assignments
      | some (.error _) => []
      | none => hoistedIn arguments) ++
    hoistedOf assignments cs

def hoistedIn : List CommandArgument → List EnvironmentAssignment
  | [] => []
  | a :: arguments => hoistedArgument a ++ hoistedIn arguments

def hoistedArgument : CommandArgument → List EnvironmentAssignment
  | .string _ => []
  | .commands list => hoisted list

end

/-! ## Resolved lists -/

/-- The full name of an entry of one of the tables. -/
def IsCanonical (name : String) : Prop :=
  ∃ entry ∈ commandTable ++ exactCommands, entry.name = name

instance (name : String) : Decidable (IsCanonical exactCommands name) :=
  inferInstanceAs (Decidable (∃ entry ∈ commandTable ++ exactCommands, entry.name = name))

/-- Aliases are replaced by lists that are themselves resolved. -/
structure Replacement.IsResolved : Prop where
  names : ∀ {assignments name replaced}, replacement assignments name = some (.ok replaced) →
    ∀ n ∈ replaced.names, IsCanonical exactCommands n
  carried : ∀ {assignments name replaced}, replacement assignments name = some (.ok replaced) →
    replaced.carried = []

/-- A list with these assignments, whose commands have these origins. -/
structure Resolved (assignments : List EnvironmentAssignment) (trace : List (String × Origin))
    (p : ParsedCommands) : Prop where
  names : p.names = trace.map Prod.fst
  canonical : ∀ n o, (n, o) ∈ trace → o ≠ .asWritten → IsCanonical exactCommands n
  carried : p.carried = []
  assignments : p.assignments = assignments

/-- Arguments whose nested lists have these assignments, and whose commands have these origins. -/
structure ResolvedArguments (assignments : List EnvironmentAssignment)
    (trace : List (String × Origin)) (arguments : List CommandArgument) : Prop where
  names : namesIn arguments = trace.map Prod.fst
  canonical : ∀ n o, (n, o) ∈ trace → o ≠ .asWritten → IsCanonical exactCommands n
  carried : carriedIn arguments = []
  assignments : arguments.flatMap CommandArgument.assignments = assignments

variable {exactCommands replacement}
variable {assignments : List EnvironmentAssignment} {trace : List (String × Origin)}
  {p : ParsedCommands}

variable {args : List CommandArgument} {c : ParsedCommand} {s' : ArgumentsState}
  {classifyAssignments : Bool}

theorem Resolved.pushCommand (h : Resolved exactCommands assignments trace p) {name : String}
    (hnm : IsCanonical exactCommands name)
    {nested : List EnvironmentAssignment} {inner : List (String × Origin)}
    (ha : ResolvedArguments exactCommands nested inner args) (start line : ℕ) :
    Resolved exactCommands (assignments ++ nested) (trace ++ (name, .lookedUp) :: inner)
      (p.pushCommand (.mk name args start line)) := by
  refine ⟨?_, fun n o hmem ho => ?_, ?_, congrArg₂ (· ++ ·) h.assignments ha.assignments⟩
  · rw [ParsedCommands.names, collect_pushCommand]
    simp only [append_assoc, map_append, map_cons, singleton_append]
    exact congrArg₂ (· ++ name :: ·) h.names ha.names
  · rcases mem_append.mp hmem with hmem | hmem
    · exact h.canonical n o hmem ho
    · rcases mem_cons.mp hmem with heq | hmem
      · obtain ⟨rfl, rfl⟩ := mk.inj heq
        exact hnm
      · exact ha.canonical n o hmem ho
  · rw [carried_pushCommand, h.carried]
    exact ha.carried

/-- The commands of an alias, with arguments as they were written behind the last one. -/
theorem Resolved.append_replaceCommand (h : Resolved exactCommands assignments trace p)
    {replaced : ParsedCommands} (hns : ∀ n ∈ replaced.names, IsCanonical exactCommands n)
    (hcar : replaced.carried = []) (hdr : args.flatMap CommandArgument.assignments = [])
    (ha : carriedIn args = []) (name : String) (start line : ℕ) :
    Resolved exactCommands (assignments ++ replaced.assignments)
      (trace ++ if replaced.commands.isEmpty then []
        else replaced.names.map (·, .fromAlias) ++ (namesIn args).map (·, .asWritten))
      (p.append (replaceCommand (.mk name args start line) replaced)) := by
  refine ⟨?_, fun n o hmem ho => ?_, ?_, congrArg (· ++ replaced.assignments) h.assignments⟩
  · rw [ParsedCommands.names, collect_append, map_append, ← h.names]
    refine congrArg (p.names ++ ·) ?_
    split_ifs with hemp
    · rw [collect_eq, replaceCommand, isEmpty_iff.mp hemp]
      rfl
    · have hne : replaced.commands.map (fun r => ParsedCommand.mk r.name r.arguments start line)
          ≠ [] := by
        simpa [List.isEmpty_iff] using hemp
      rw [collect_eq, replaceCommand]
      refine (namesOf_appendToLast args hne).trans ?_
      rw [namesOf, collectOf_map_lines, ← collect_eq]
      simp [Function.comp_def]
  · rcases mem_append.mp hmem with hmem | hmem
    · exact h.canonical n o hmem ho
    · split_ifs at hmem
      · cases hmem
      · rcases mem_append.mp hmem with hmem | hmem
        · obtain ⟨m, hm, heq⟩ := mem_map.mp hmem
          exact (mk.inj heq).1 ▸ hns m hm
        · obtain ⟨m, -, heq⟩ := mem_map.mp hmem
          exact absurd (mk.inj heq).2.symm ho
  · rw [ParsedCommands.carried, collect_append]
    refine append_eq_nil_iff.mpr ⟨h.carried, ?_⟩
    rw [collect_eq]
    refine carriedOf_appendToLast hdr ha ?_
    rw [carriedOf, collectOf_map_lines, ← carriedOf, ← carried_eq]
    exact hcar

/-! ## Resolving -/

mutual

/-- What resolving leaves of a list that was read. -/
theorem resolved_resolve (hrepl : replacement.IsResolved exactCommands) : ∀
    {raw p : ParsedCommands}, raw.carried = [] →
    resolve exactCommands replacement raw = .ok p →
    Resolved exactCommands (hoisted replacement raw) (origins exactCommands replacement raw) p
  | .mk commands assignments g, p, hraw, h => by
    have hst : Resolved exactCommands assignments [] (.mk [] assignments g) :=
      ⟨rfl, fun _ _ hmem => absurd hmem not_mem_nil, rfl, rfl⟩
    exact resolved_resolveCommands hrepl hraw hst h

theorem resolved_resolveCommands (hrepl : replacement.IsResolved exactCommands)
    {assignments : List EnvironmentAssignment} :
    ∀ {cs : List ParsedCommand} {made : List EnvironmentAssignment} {trace : List (String × Origin)}
    {output p : ParsedCommands}, carriedOf cs = [] → Resolved exactCommands made trace output →
    resolveCommands exactCommands replacement assignments cs output = .ok p →
    Resolved exactCommands (made ++ hoistedOf replacement assignments cs)
      (trace ++ originsOf exactCommands replacement assignments cs) p
  | [], made, trace, output, p, _, hout, h => by
    obtain rfl := ok.inj h
    simpa [originsOf, hoistedOf] using hout
  | .mk name args startLine line :: cs, made, trace, output, p, hcs, hout, h => by
    obtain ⟨ha, hr⟩ := append_eq_nil_iff.mp hcs
    obtain ⟨hdr, hinn⟩ := append_eq_nil_iff.mp ha
    rw [resolveCommands] at h
    rw [originsOf, hoistedOf, ← append_assoc, ← append_assoc]
    cases hrep : replacement assignments name with
    | none =>
      rw [hrep] at h
      obtain ⟨args', h₁, h⟩ := bind_eq_ok h
      obtain ⟨entry, h₂, h⟩ := bind_eq_ok h
      have hf : fullName exactCommands name line = entry.name := by
        simp [fullName, h₂, Except.toOption]
      refine resolved_resolveCommands hrepl hr ?_ h
      rw [hf]
      exact hout.pushCommand ⟨entry, mem_append.mpr (mem_of_lookupCommandAt h₂), rfl⟩
        (resolved_resolveArguments hrepl hinn h₁) startLine line
    | some r =>
      rw [hrep] at h
      cases r with
      | error e => cases h
      | ok replaced =>
        exact resolved_resolveCommands hrepl hr (hout.append_replaceCommand
          (hrepl.names hrep) (hrepl.carried hrep) hdr hinn
          name startLine line) h

theorem resolved_resolveArguments (hrepl : replacement.IsResolved exactCommands) :
    ∀ {args args' : List CommandArgument}, carriedIn args = [] →
    resolveArguments exactCommands replacement args = .ok args' →
    ResolvedArguments exactCommands (hoistedIn replacement args)
      (originsIn exactCommands replacement args) args'
  | [], _, _, h => by
    obtain rfl := ok.inj h
    exact ⟨rfl, fun _ _ hmem => absurd hmem not_mem_nil, rfl, rfl⟩
  | a :: args, _, ha, h => by
    obtain ⟨ha, hargs⟩ := append_eq_nil_iff.mp ha
    obtain ⟨a', h₁, h⟩ := bind_eq_ok h
    obtain ⟨args', h₂, h⟩ := bind_eq_ok h
    obtain rfl := ok.inj h
    have hfst := resolved_resolveArgument hrepl ha h₁
    have hos := resolved_resolveArguments hrepl hargs h₂
    refine ⟨?_, fun n o hmem => ?_, ?_, ?_⟩
    · have := hfst.names
      simp only [namesIn, collectIn, append_nil] at this
      rw [originsIn, map_append, ← hos.names, ← this]
      rfl
    · exact (mem_append.mp hmem).elim (hfst.canonical n o) (hos.canonical n o)
    · have := hfst.carried
      simp only [carriedIn, collectIn, append_nil] at this
      exact append_eq_nil_iff.mpr ⟨this, hos.carried⟩
    · rw [hoistedIn, ← hfst.assignments, ← hos.assignments]
      simp

theorem resolved_resolveArgument (hrepl : replacement.IsResolved exactCommands) :
    ∀ {a a' : CommandArgument},
    collectArgument (fun _ args => args.flatMap CommandArgument.assignments) a = [] →
    resolveArgument exactCommands replacement a = .ok a' →
    ResolvedArguments exactCommands (hoistedArgument replacement a)
      (originsArgument exactCommands replacement a) [a']
  | .string _, _, _, h => by
    obtain rfl := ok.inj h
    exact ⟨rfl, fun _ _ hmem => absurd hmem not_mem_nil, rfl, rfl⟩
  | .commands list, _, ha, h => by
    obtain ⟨p, h₁, h⟩ := bind_eq_ok h
    obtain rfl := ok.inj h
    have hp := resolved_resolve hrepl ha h₁
    exact ⟨(append_nil _).trans hp.names, hp.canonical, (append_nil _).trans hp.carried,
      (append_nil _).trans hp.assignments⟩

end

end Origins

/-! ## Commands behind aliases -/

section BehindAliases

variable (replacement : Replacement)

mutual

/-- The names of the commands in braces behind aliases, at every depth, as they are written. Behind
an alias whose text has no command, arguments are dropped. -/
def behindAliases : ParsedCommands → List String
  | .mk commands assignments _ => behindAliasesOf assignments commands

def behindAliasesOf (assignments : List EnvironmentAssignment) : List ParsedCommand → List String
  | [] => []
  | .mk name arguments _ _ :: cs =>
    (match replacement assignments name with
      | some (.ok replaced) => if replaced.commands.isEmpty then [] else namesIn arguments
      | some (.error _) => []
      | none => behindAliasesIn arguments) ++
    behindAliasesOf assignments cs

def behindAliasesIn : List CommandArgument → List String
  | [] => []
  | a :: arguments => behindAliasesArgument a ++ behindAliasesIn arguments

def behindAliasesArgument : CommandArgument → List String
  | .string _ => []
  | .commands list => behindAliases list

end

variable {replacement} (exactCommands : List CommandEntry) (n : String)

mutual

/-- Exactly these stand in the result as they are written. -/
theorem mem_behindAliases : ∀ raw : ParsedCommands,
    n ∈ behindAliases replacement raw ↔ (n, .asWritten) ∈ origins exactCommands replacement raw
  | .mk commands assignments _ => mem_behindAliasesOf assignments commands

theorem mem_behindAliasesOf (assignments : List EnvironmentAssignment) : ∀ cs : List ParsedCommand,
    n ∈ behindAliasesOf replacement assignments cs ↔
      (n, .asWritten) ∈ originsOf exactCommands replacement assignments cs
  | [] => by simp [behindAliasesOf, originsOf]
  | .mk name arguments _ line :: cs => by
    rw [behindAliasesOf, originsOf, List.mem_append, List.mem_append]
    refine or_congr ?_ (mem_behindAliasesOf assignments cs)
    cases replacement assignments name with
    | none => simpa using mem_behindAliasesIn arguments
    | some r =>
      cases r with
      | error e => simp
      | ok replaced => by_cases h : replaced.commands = [] <;> simp [h]

theorem mem_behindAliasesIn : ∀ args : List CommandArgument,
    n ∈ behindAliasesIn replacement args ↔
      (n, .asWritten) ∈ originsIn exactCommands replacement args
  | [] => by simp [behindAliasesIn, originsIn]
  | a :: args => by
    rw [behindAliasesIn, originsIn, List.mem_append, List.mem_append]
    exact or_congr (mem_behindAliasesArgument a) (mem_behindAliasesIn args)

theorem mem_behindAliasesArgument : ∀ a : CommandArgument,
    n ∈ behindAliasesArgument replacement a ↔
      (n, .asWritten) ∈ originsArgument exactCommands replacement a
  | .string _ => by simp [behindAliasesArgument, originsArgument]
  | .commands list => mem_behindAliases list

end

mutual

theorem behindAliases_none : ∀ raw : ParsedCommands, behindAliases (fun _ _ => none) raw = []
  | .mk commands _ _ => behindAliasesOf_none _ commands

theorem behindAliasesOf_none (assignments : List EnvironmentAssignment) :
    ∀ cs : List ParsedCommand, behindAliasesOf (fun _ _ => none) assignments cs = []
  | [] => rfl
  | .mk _ arguments _ _ :: cs => by
    rw [behindAliasesOf, behindAliasesIn_none arguments, behindAliasesOf_none assignments cs]
    rfl

theorem behindAliasesIn_none : ∀ args : List CommandArgument,
    behindAliasesIn (fun _ _ => none) args = []
  | [] => rfl
  | a :: args => by
    rw [behindAliasesIn, behindAliasesArgument_none a, behindAliasesIn_none args]
    rfl

theorem behindAliasesArgument_none : ∀ a : CommandArgument,
    behindAliasesArgument (fun _ _ => none) a = []
  | .string _ => rfl
  | .commands list => behindAliases_none list

end

end BehindAliases

/-! ## Reading -/

theorem readStructure_eq_ok (h : parser.readStructure input g = .ok raw) :
    (GrammarParser.new (Lexer.new input parser) g).parseAll = .ok raw ∧
      ensureParsedCommandLengths parser.maxCommandBytes raw = .ok () := by
  obtain ⟨commands, hrd, h⟩ := bind_eq_ok h
  obtain ⟨_, hlen, h⟩ := bind_eq_ok h
  obtain rfl := ok.inj h
  exact ⟨hrd, hlen⟩

theorem wellRead_new (h : parser.readStructure input g = .ok raw) :
    WellRead (maxNestingDepth - 1) raw :=
  GrammarParser.wellRead_parseAll rfl rfl (readStructure_eq_ok h).1

theorem wellRead_newSourceFile (h : parser.readSourceFileStructure input g = .ok raw) :
    WellRead (maxNestingDepth - 1) raw := by
  obtain ⟨commands, hrd, h⟩ := bind_eq_ok h
  obtain ⟨-, -, h⟩ := bind_eq_ok h
  obtain rfl := ok.inj h
  exact GrammarParser.wellRead_parseAll rfl rfl hrd

theorem commandFromArguments_eq_ok {line : ℕ} (h : commandFromArguments args line = .ok c) :
    ∃ name r, args = .string name :: r ∧ c = .mk name r line line := by
  unfold commandFromArguments at h
  split at h
  · exact ⟨_, _, rfl, (ok.inj h).symm⟩
  · cases h

/-- Nothing carries assignments while an argument vector is read. -/
structure ArgumentsState.Flat (s : ArgumentsState) : Prop where
  commands : s.commands.carried = []
  current : carriedIn s.current = []

/-- The arguments collected so far become a command. -/
theorem ArgumentsState.Flat.pushCommand (h : s.Flat) {line : ℕ}
    (hc : commandFromArguments s.current line = .ok c) :
    (s.commands.pushCommand c).carried = [] := by
  obtain ⟨name, r, hcur, rfl⟩ := commandFromArguments_eq_ok hc
  have hr := h.current
  rw [hcur] at hr
  rw [carried_pushCommand, h.commands]
  exact hr

theorem ArgumentsState.Flat.putArgument (h : s.Flat) (classifyAssignments : Bool) (v : String) :
    (putArgument classifyAssignments s v).Flat := by
  unfold Rmux.putArgument
  split_ifs
  · exact ⟨(collect_pushAssignment _ _ _).trans h.commands, h.current⟩
  · exact ⟨h.commands, (collectIn_append ..).trans (append_eq_nil_iff.mpr ⟨h.current, rfl⟩)⟩

theorem ArgumentsState.Flat.endCommand (h : s.Flat) (hend : endCommand s = .ok s') : s'.Flat := by
  unfold Rmux.endCommand at hend
  split_ifs at hend
  · obtain rfl := ok.inj hend
    exact ⟨h.commands, h.current⟩
  · obtain ⟨c, hc, hend⟩ := bind_eq_ok hend
    obtain rfl := ok.inj hend
    exact ⟨h.pushCommand hc, rfl⟩

theorem ArgumentsState.Flat.takeArgument (h : s.Flat) {argument : String}
    (htk : takeArgument classifyAssignments s argument = .ok s') : s'.Flat := by
  unfold Rmux.takeArgument at htk
  dsimp only at htk
  have hput : (if (splitSemicolon argument).2 = true ∧ (splitSemicolon argument).1 = "" then s
      else Rmux.putArgument classifyAssignments s (splitSemicolon argument).1).Flat := by
    split_ifs
    · exact h
    · exact h.putArgument ..
  split at htk
  · exact hput.endCommand htk
  · exact ok.inj htk ▸ hput

theorem carried_readArguments {args : List String}
    (h : parser.readArguments args classifyAssignments = .ok raw) : raw.carried = [] := by
  obtain ⟨-, -, h⟩ := bind_eq_ok h
  obtain ⟨s, hfold, h⟩ := bind_eq_ok h
  have hs : s.Flat := foldlM_invariant (fun hs htk => hs.takeArgument htk) ⟨rfl, rfl⟩ hfold
  split_ifs at h
  · obtain rfl := ok.inj h
    exact hs.commands
  · obtain ⟨c, hc, h⟩ := bind_eq_ok h
    obtain rfl := ok.inj h
    exact hs.pushCommand hc

/-! ## Inputs -/

/-- What a parser is given, and by which entry point. -/
inductive CommandInput
  | text (input : String)
  | oneGroup (input : String)
  | sourceFile (input : String)
  | arguments (arguments : List String)

namespace CommandParser

variable (parser : CommandParser)

def parseInput : CommandInput → Except CommandParseError ParsedCommands
  | .text input => parser.parse input
  | .oneGroup input => parser.parseOneGroup input
  | .sourceFile input => parser.parseSourceFile input
  | .arguments arguments => parser.parseArguments arguments

/-- The commands of an input as they are written. -/
def readInput : CommandInput → Except CommandParseError ParsedCommands
  | .text input => parser.readStructure input .byLine
  | .oneGroup input => parser.readStructure input .oneGroup
  | .sourceFile input => parser.readSourceFileStructure input .byLine
  | .arguments arguments => parser.readArguments arguments false

theorem parseInput_eq (input : CommandInput) : parser.parseInput input =
      parser.readInput input >>= resolve parser.exactCommands parser.aliasReplacement := by
  cases input <;> rfl

variable {parser}

theorem carried_readInput {input : CommandInput} {raw : ParsedCommands}
    (h : parser.readInput input = .ok raw) : raw.carried = [] := by
  cases input with
  | text input | oneGroup input => exact (wellRead_new h).carried
  | sourceFile input => exact (wellRead_newSourceFile h).carried
  | arguments arguments => exact carried_readArguments h

variable (parser)

/-- The text of an alias is resolved, without aliases. -/
theorem isResolved_aliasReplacement : parser.aliasReplacement.IsResolved parser.exactCommands := by
  have hnone : Replacement.IsResolved parser.exactCommands (fun _ _ => none) :=
    ⟨fun h => (nomatch h), fun h => (nomatch h)⟩
  have hres : ∀ {assignments name replaced},
      parser.aliasReplacement assignments name = some (.ok replaced) →
        ∃ raw, Resolved parser.exactCommands (hoisted (fun _ _ => none) raw)
          (origins parser.exactCommands (fun _ _ => none) raw) replaced := by
    intro assignments name replaced h
    obtain ⟨v, -, h⟩ := Option.map_eq_some_iff.mp h
    obtain ⟨raw, hrd, h⟩ := bind_eq_ok h
    exact ⟨raw, resolved_resolve hnone (wellRead_new hrd).carried h⟩
  refine ⟨fun h n hn => ?_, fun h => ?_⟩
  · obtain ⟨raw, hraw⟩ := hres h
    rw [hraw.names] at hn
    obtain ⟨⟨m, o⟩, hmem, rfl⟩ := mem_map.mp hn
    refine hraw.canonical m o hmem ?_
    rintro rfl
    have := (mem_behindAliases parser.exactCommands m raw).mpr hmem
    rw [behindAliases_none] at this
    cases this
  · obtain ⟨raw, hraw⟩ := hres h
    exact hraw.carried

/-- Every command of `p` has a full name, aliases are expanded, and the assignments stand at the top.
A command that stands as it is written is one that expanding would leave alone. -/
structure FullyResolved (raw p : ParsedCommands) : Prop where
  names : ∀ n ∈ p.names, IsCanonical parser.exactCommands n
  expanded : p.names = (origins parser.exactCommands parser.aliasReplacement raw).map Prod.fst
  aliases : ∀ n, (n, .asWritten) ∈ origins parser.exactCommands parser.aliasReplacement raw →
    parser.findCommandAlias n = none
  carried : p.carried = []
  assignments : p.assignments = hoisted parser.aliasReplacement raw

/-- Everything is resolved if and only if the commands in braces behind aliases are written with full
names that are no aliases. -/
theorem fullyResolved_iff (input : CommandInput) {p : ParsedCommands}
    (h : parser.parseInput input = .ok p) :
    ∃ raw, parser.readInput input = .ok raw ∧
      (parser.FullyResolved raw p ↔ ∀ n ∈ behindAliases parser.aliasReplacement raw,
        IsCanonical parser.exactCommands n ∧ parser.findCommandAlias n = none) := by
  rw [parseInput_eq] at h
  obtain ⟨raw, hread, h⟩ := bind_eq_ok h
  have hp := resolved_resolve parser.isResolved_aliasReplacement (carried_readInput hread) h
  refine ⟨raw, hread, fun hfull n hn => ?_, fun hbehind =>
    ⟨fun n hn => ?_, hp.names, fun n hn => ?_, hp.carried, hp.assignments⟩⟩
  · rw [mem_behindAliases parser.exactCommands] at hn
    refine ⟨hfull.names n ?_, hfull.aliases n hn⟩
    rw [hp.names]
    exact mem_map_of_mem hn
  · rw [hp.names] at hn
    obtain ⟨⟨m, o⟩, hmem, rfl⟩ := mem_map.mp hn
    by_cases ho : o = .asWritten
    · subst ho
      exact (hbehind m ((mem_behindAliases parser.exactCommands m raw).mpr hmem)).1
    · exact hp.canonical m o hmem ho
  · exact (hbehind n ((mem_behindAliases parser.exactCommands n raw).mpr hn)).2

theorem fullyResolved_new_window :
    ∃ raw p, (new fun _ => false).readInput (.text "splitp { new-window }") = .ok raw ∧
      (new fun _ => false).parseInput (.text "splitp { new-window }") = .ok p ∧
      (new fun _ => false).FullyResolved raw p := by
  obtain ⟨p, hparse, -⟩ : ∃ p, (new fun _ => false).parseInput
      (.text "splitp { new-window }") = .ok p ∧ p.names = ["split-window", "new-window"] :=
    exists_of_toOption_map (by decide +kernel)
  obtain ⟨raw', hread', hbehind⟩ : ∃ raw, (new fun _ => false).readInput
      (.text "splitp { new-window }") = .ok raw ∧
      behindAliases (new fun _ => false).aliasReplacement raw = ["new-window"] :=
    exists_of_toOption_map (by decide +kernel)
  obtain ⟨raw, hread, hiff⟩ := fullyResolved_iff (new fun _ => false) _ hparse
  obtain rfl := ok.inj (hread'.symm.trans hread)
  refine ⟨raw', p, hread, hparse, hiff.mpr fun n hn => ?_⟩
  rw [hbehind] at hn
  obtain rfl := mem_singleton.mp hn
  decide +kernel

/-- The command behind the alias `splitp` keeps the name `neww`. -/
theorem resolved_skips_alias_arguments :
    ∃ raw p, (new fun _ => false).readInput (.text "splitp { neww }") = .ok raw ∧
      (new fun _ => false).parseInput (.text "splitp { neww }") = .ok p ∧
      ¬(new fun _ => false).FullyResolved raw p := by
  obtain ⟨p, hparse, hnames⟩ : ∃ p, (new fun _ => false).parseInput
      (.text "splitp { neww }") = .ok p ∧ p.names = ["split-window", "neww"] :=
    exists_of_toOption_map (by decide +kernel)
  obtain ⟨raw, hread, -⟩ : ∃ raw, (new fun _ => false).readInput
      (.text "splitp { neww }") = .ok raw ∧ raw.names = ["splitp", "neww"] :=
    exists_of_toOption_map (by decide +kernel)
  refine ⟨raw, p, hread, hparse, fun hfull => ?_⟩
  have hneww : ¬IsCanonical (new fun _ => false).exactCommands "neww" := by decide +kernel
  exact hneww (hfull.names "neww" (by simp [hnames]))

end CommandParser

end Rmux
