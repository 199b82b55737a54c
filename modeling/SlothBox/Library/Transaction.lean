import Mathlib.Data.List.Basic

/-! One connection to a database, as far as its transactions go. What the database has
taken in is a log of effects; a transaction holds its own back until it commits. -/

namespace SlothBox.Library

structure Connection (ε : Type) where
  committed : List ε
  /-- What an open transaction has done. -/
  pending : Option (List ε) := none

namespace Connection
variable {ε : Type}

/-- `BEGIN`; inside a transaction a warning. -/
def begin (connection : Connection ε) : Connection ε :=
  { connection with pending := some (connection.pending.getD []) }

/-- `COMMIT`; outside a transaction a warning. -/
def commit (connection : Connection ε) : Connection ε := ⟨connection.committed ++ connection.pending.getD [], none⟩

/-- `ROLLBACK`, or the connection is lost. -/
def rollback (connection : Connection ε) : Connection ε := ⟨connection.committed, none⟩

/-- A statement that succeeds; outside a transaction it commits by itself. -/
def write (connection : Connection ε) (effect : ε) : Connection ε :=
  match connection.pending with
  | some effects => { connection with pending := some (effects ++ [effect]) }
  | none => ⟨connection.committed ++ [effect], none⟩

/-- What the connection itself sees. -/
def visible (connection : Connection ε) : List ε := connection.committed ++ connection.pending.getD []

/-- An operation that hides or publishes effects of one kind only. -/
structure Within (kind : ε → Prop) (before after : Connection ε) : Prop where
  published : ∃ effects, after.committed = before.committed ++ effects ∧ ∀ effect ∈ effects, kind effect
  held : ∀ effects, after.pending = some effects → ∀ effect ∈ effects, kind effect

variable {kind : ε → Prop} {connection : Connection ε}

theorem within_begin (held : ∀ effects, connection.pending = some effects → ∀ effect ∈ effects, kind effect) :
    Within kind connection connection.begin where
  published := ⟨[], (List.append_nil _).symm, fun _ inside => absurd inside List.not_mem_nil⟩
  held := by
    intro effects same
    cases open' : connection.pending with
    | none =>
      rw [begin, open'] at same
      cases same
      exact fun _ inside => absurd inside List.not_mem_nil
    | some own =>
      rw [begin, open'] at same
      cases same
      exact held own open'

theorem within_commit (held : ∀ effects, connection.pending = some effects → ∀ effect ∈ effects, kind effect) :
    Within kind connection connection.commit where
  published := by
    refine ⟨connection.pending.getD [], rfl, ?_⟩
    cases open' : connection.pending with
    | none => exact fun _ inside => absurd inside List.not_mem_nil
    | some own => exact held own open'
  held := fun _ same => by cases same

theorem within_write {effect : ε} (fits : kind effect)
    (held : ∀ effects, connection.pending = some effects → ∀ effect ∈ effects, kind effect) :
    Within kind connection (connection.write effect) := by
  unfold write
  split
  next own open' =>
    refine ⟨⟨[], (List.append_nil _).symm, fun _ inside => absurd inside List.not_mem_nil⟩, ?_⟩
    intro effects same other inside
    cases same
    rcases List.mem_append.mp inside with old | new
    · exact held own open' other old
    · exact List.mem_singleton.mp new ▸ fits
  next =>
    refine ⟨⟨[effect], rfl, ?_⟩, fun _ same => by cases same⟩
    intro other inside
    exact List.mem_singleton.mp inside ▸ fits

end Connection

end SlothBox.Library
