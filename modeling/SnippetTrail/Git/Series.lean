/-!
# Series

A series hands out its items once, either one by one or in a single visit of all of them. Closing
it, which a visit does too, ends the handing out.
-/

namespace SnippetTrail

inductive Flow where
  | proceed
  | stop
  deriving DecidableEq

/-- Visits items in order until the visitor stops or fails; a stop is no failure. -/
def visitEach [Monad m] (visitor : α → ExceptT ε m Flow) : List α → ExceptT ε m Unit
  | [] => pure ()
  | item :: rest => do
    match ← visitor item with
    | .proceed => visitEach visitor rest
    | .stop => pure ()

structure Series (α : Type) where
  items : List α
  handedOut : Nat

namespace Series

def ofList (items : List α) : Series α := ⟨items, 0⟩

def close (series : Series α) : Series α := { series with handedOut := series.items.length }

def isClosed (series : Series α) : Bool := series.items.length ≤ series.handedOut

def remaining (series : Series α) : Nat := series.items.length - series.handedOut

def next (series : Series α) : Option α × Series α :=
  match series.items[series.handedOut]? with
  | some item => (some item, { series with handedOut := series.handedOut + 1 })
  | none => (none, series)

/-- All that `next` still hands out, and the series after it. -/
def drain (series : Series α) : List α × Series α :=
  (series.items.drop series.handedOut,
    { series with handedOut := max series.handedOut series.items.length })

/-- Visits every item from the first on, whatever was handed out before. -/
def visit [Monad m] (series : Series α) (visitor : α → ExceptT ε m Flow) :
    m (Except ε Unit × Series α) := do
  let outcome ← (visitEach visitor series.items).run
  pure (outcome, series.close)

end Series

end SnippetTrail
