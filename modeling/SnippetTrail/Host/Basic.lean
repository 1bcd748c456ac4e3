import SnippetTrail.Error
import SnippetTrail.Host.Command

/-!
# The host

What the service needs from the machine that it runs on: processes, files, and scopes that can be
called off. Everything here is a function of the machine's state, so the service itself is pure.
-/

namespace SnippetTrail

/-- A scope of work. It is called off when it or a scope around it is; the innermost comes first. -/
abbrev Scope := List Nat

inductive FileKind where
  | file (size : Nat)
  | folder
  | link
  deriving DecidableEq

structure Host (σ : Type) where
  run : Scope → Command → σ → Except GitError ProcessOutput × σ
  isCalledOff : Scope → σ → Bool
  callOff : Scope → σ → σ
  enter : Scope → σ → Scope × σ
  kind : FilePath → σ → Except IoFault FileKind
  /-- What a path names, links not followed. -/
  linkKind : FilePath → σ → Except IoFault FileKind
  read : FilePath → σ → Except IoFault (List UInt8)
  write : FilePath → List UInt8 → σ → Except IoFault Unit × σ
  createFolders : FilePath → σ → Except IoFault Unit × σ
  removeFolder : FilePath → σ → Except IoFault Unit × σ

def Host.onPart (get : τ → σ) (put : σ → τ → τ) (host : Host σ) : Host τ :=
  let step {α : Type} (act : σ → α × σ) (state : τ) : α × τ :=
    let (value, part) := act (get state)
    (value, put part state)
  { run := fun scope command => step (host.run scope command)
    isCalledOff := fun scope state => host.isCalledOff scope (get state)
    callOff := fun scope state => put (host.callOff scope (get state)) state
    enter := fun scope => step (host.enter scope)
    kind := fun path state => host.kind path (get state)
    linkKind := fun path state => host.linkKind path (get state)
    read := fun path state => host.read path (get state)
    write := fun path bytes => step (host.write path bytes)
    createFolders := fun path => step (host.createFolders path)
    removeFolder := fun path => step (host.removeFolder path) }

/-- A computation that changes a state and may fail; changes made before a failure stay. -/
abbrev Act (σ ε α : Type) := ExceptT ε (StateM σ) α

namespace Act

def ofStep (step : σ → Except ε α × σ) : Act σ ε α := step

def mapError (convert : ε → ε') (act : Act σ ε α) : Act σ ε' α := fun state =>
  match act state with
  | (.ok value, state) => (.ok value, state)
  | (.error error, state) => (.error (convert error), state)

def onPart (get : τ → σ) (put : σ → τ → τ) (act : Act σ ε α) : Act τ ε α := fun state =>
  let (outcome, part) := act (get state)
  (outcome, put part state)

def ofQuery (query : σ → Except ε α) : Act σ ε α := fun state => (query state, state)

end Act

end SnippetTrail
