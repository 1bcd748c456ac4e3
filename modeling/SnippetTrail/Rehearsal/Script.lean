import SnippetTrail.Machine.Basic

/-!
# Rehearsed commands

A rehearsal runs the service on a machine whose version control tool plays from a script. Rules say
what commands answer; a command without a rule answers nothing and succeeds. Trees say what a
checkout puts into the work tree. All commands are recorded.
-/

namespace SnippetTrail

instance : CoeOut SystemText String := ⟨SystemText.display⟩

structure Rule where
  argument : Option String
  part : Option String
  limit : Option Nat
  used : Nat
  /-- The machine runs the command itself. -/
  isReal : Bool
  /-- Its use calls off the scope of the command. -/
  callsOff : Bool
  output : ProcessOutput

namespace Rule

def applies (rule : Rule) (arguments : List String) : Bool :=
  rule.argument.all (fun argument => arguments.head? == some argument) &&
    rule.part.all (fun part => arguments.any fun argument =>
      Text.occursIn part.toList argument.toList) &&
    rule.limit.all fun limit => rule.used < limit

def use? (arguments : List String) : List Rule → Option (Rule × List Rule)
  | [] => none
  | rule :: rest =>
    if rule.applies arguments then some (rule, { rule with used := rule.used + 1 } :: rest)
    else (use? arguments rest).map fun (used, rules) => (used, rule :: rules)

end Rule

abbrev Trees := List (String × List (String × FileNode))

structure Rehearsal where
  machine : Machine
  rules : List Rule
  trees : Trees
  calls : List (List String)

namespace Rehearsal

def new (machine : Machine) (rules : List Rule) (trees : Trees) : Rehearsal :=
  ⟨machine, rules, trees, []⟩

def setScene (command : Command) (rehearsal : Rehearsal) : Rehearsal :=
  match command.arguments with
  | "checkout" :: target :: _ =>
    match rehearsal.trees.lookup target with
    | none => rehearsal
    | some nodes =>
      let files := rehearsal.machine.files.plant command.dir nodes
      { rehearsal with machine := { rehearsal.machine with files } }
  | _ => rehearsal

def answer (scope : Scope) (command : Command) (rule : Rule) (rehearsal : Rehearsal) :
    Except GitError ProcessOutput × Rehearsal :=
  if rule.isReal then
    let (outcome, machine) := rehearsal.machine.run scope command
    (outcome, { rehearsal with machine })
  else
    let rehearsal :=
      if rule.callsOff then { rehearsal with machine := rehearsal.machine.callOff scope }
      else rehearsal
    (.ok rule.output, if rule.output.isSuccess then rehearsal.setScene command else rehearsal)

def run (scope : Scope) (command : Command) (rehearsal : Rehearsal) :
    Except GitError ProcessOutput × Rehearsal :=
  if rehearsal.machine.isCalledOff scope then (.error (.cancelled command.display), rehearsal)
  else
    let call : List String := command.dir :: command.program :: command.arguments
    let recorded := { rehearsal with calls := rehearsal.calls ++ [call] }
    match Rule.use? command.arguments rehearsal.rules with
    | none => (.ok ⟨"", "", some 0⟩, recorded.setScene command)
    | some (rule, rules) => answer scope command rule { recorded with rules }

def host : Host Rehearsal :=
  { Host.onPart Rehearsal.machine (fun machine rehearsal => { rehearsal with machine })
      Machine.host with
    run := run }

def takeCalls (rehearsal : Rehearsal) : List (List String) × Rehearsal :=
  (rehearsal.calls, { rehearsal with calls := [] })

end Rehearsal

end SnippetTrail
