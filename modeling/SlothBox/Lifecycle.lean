import SlothBox.Library.Transition
import SlothBox.Store

/-! What the life of a share should look like, said without rows, statements or handlers. It
fills up, goes live, and ends when it has been read as often as its sender allowed, is called
back, or is swept away. Everything that happens to it happens at once. -/

namespace SlothBox
open Library

/-- What the sender asked for. -/
structure Terms where
  burnAfterRead : Bool
  maxDownloads : Option Nat
  revocable : Bool
  deriving DecidableEq, Repr

inductive Phase where
  | filling | live | spent | gone
  deriving DecidableEq, Repr

structure Life where
  terms : Terms
  phase : Phase
  downloads : Nat
  /-- Why it was ended last. -/
  reason : Option DestroyedReason
  deriving DecidableEq, Repr

inductive LifeEvent where
  | create (terms : Terms)
  | fill
  | complete
  | download
  | burn
  | revoke
  | reap (reason : DestroyedReason)
  deriving DecidableEq, Repr

def Phase.ended : Phase → Bool
  | .spent | .gone => true
  | _ => false

/-- As many downloads as the sender allowed. -/
def Terms.exhausted (terms : Terms) (downloads : Nat) : Bool := terms.maxDownloads.any (· ≤ downloads)

/-- A reason that a sweep may give. -/
def Life.warrants (life : Life) : DestroyedReason → Bool
  | .burn => life.terms.burnAfterRead && life.reason.isSome
  | .maxDownloads => life.terms.exhausted life.downloads
  | .expiry => true
  | .manual | .abuse => false

/-- `late` tells whether an upload may bring back a share that is over. -/
def Life.step (late : Bool) : Option Life → LifeEvent → Option (Option Life)
  | none, .create terms => some (some ⟨terms, .filling, 0, none⟩)
  | some life, .fill => if life.phase.ended && !late then none else some (some { life with phase := .filling })
  | some life, .complete => if life.phase.ended && !late then none else some (some { life with phase := .live })
  | some life, .download =>
    if life.phase = .live then
      let read := { life with downloads := life.downloads + 1 }
      some (some (
        if life.terms.burnAfterRead then { read with phase := .gone, reason := some .burn }
        else if life.terms.exhausted read.downloads then { read with phase := .spent }
        else read))
    else none
  | some life, .burn =>
    if life.phase = .live && life.terms.burnAfterRead then
      some (some { life with phase := .gone, downloads := life.downloads + 1, reason := some .burn })
    else none
  | some life, .revoke =>
    if life.terms.revocable then some (some { life with phase := .gone, reason := some .manual }) else none
  | some life, .reap reason =>
    if life.warrants reason then some (some { life with phase := .gone, reason := some reason }) else none
  | _, _ => none

def lifecycle (late : Bool) : System (Option Life) LifeEvent := ⟨Life.step late⟩

end SlothBox
