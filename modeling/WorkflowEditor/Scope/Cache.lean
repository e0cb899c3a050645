/-
  WorkflowEditor.Scope.Cache
  ──────────────────────────
  **REMEMBERED SCOPES.**

  A cache keeps the variables it was asked for, by node.  It knows a graph
  by its revision only: when it meets another revision it forgets
  everything.

  No Mathlib.
-/
import WorkflowEditor.Scope.Resolve

namespace WorkflowEditor

/-- The scopes remembered for one revision. -/
structure ScopeCache where
  revision : Option Nat
  entries : List (String × List Variable)
  /-- How many scopes were worked out and not remembered. -/
  computed : Nat

namespace ScopeCache

/-- The cache that remembers nothing. -/
def empty : ScopeCache := ⟨none, [], 0⟩

/-- Forgets everything. -/
def invalidate (cache : ScopeCache) : ScopeCache :=
  { cache with revision := none, entries := [] }

/-- The cache when it has met a revision. -/
def meet (cache : ScopeCache) (revision : Nat) : ScopeCache :=
  if cache.revision = some revision then cache
  else { cache with revision := some revision, entries := [] }

/-- The variables that a node may refer to, remembered or worked out. -/
def get {α : Type} (cache : ScopeCache) (g : Graph α) (id : String) :
    ScopeCache × Except GraphError (List Variable) :=
  let cache := cache.meet g.revision
  match cache.entries.lookup id with
  | some found => (cache, .ok found)
  | none =>
      match g.resolve id with
      | .ok found =>
          ({ cache with
              computed := cache.computed + 1
              entries := cache.entries ++ [(id, found)] },
            .ok found)
      | .error e => (cache, .error e)

end ScopeCache

end WorkflowEditor
