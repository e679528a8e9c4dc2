import Mathlib.Data.List.Basic

/-!
# Calls that wait for calls

A machine that runs calls inside calls: a world, and the stack of the calls that wait for
the one above them to return. Each remembers the world in which it began, and giving up
puts that world back, whatever happened in between. An invariant of such a machine is one
of the world and the waiting calls that would also hold after any number of calls gave up
(`Holds`).
-/

namespace Lib

variable {W F : Type*}

/-- A waiting call: the world in which it began, and where it stands. -/
structure Suspended (W F : Type*) where
  snapshot : W
  frame : F

structure Machine (W F : Type*) where
  world : W
  stack : List (Suspended W F)

namespace Machine

def frames (m : Machine W F) : List F := m.stack.map Suspended.frame

/-- A call begins, changes the world to `w` and waits at `f`. -/
def begin (m : Machine W F) (w : W) (f : F) : Machine W F := ⟨w, ⟨m.world, f⟩ :: m.stack⟩

/-- The topmost call gives up. -/
def revert (m : Machine W F) : Machine W F :=
  match m.stack with
  | [] => m
  | f :: rest => ⟨f.snapshot, rest⟩

end Machine

/-- `Good` holds now, and after any number of waiting calls gave up. -/
def Holds (Good : W → List F → Prop) : W → List (Suspended W F) → Prop
  | w, [] => Good w []
  | w, f :: rest => Good w (f.frame :: rest.map Suspended.frame) ∧ Holds Good f.snapshot rest

section Rules

variable {Good : W → List F → Prop} {w w' : W} {f : Suspended W F}
  {stack : List (Suspended W F)} {m : Machine W F}

theorem Holds.good (h : Holds Good w stack) : Good w (stack.map Suspended.frame) := by
  cases stack with
  | nil => exact h
  | cons f rest => exact h.1

/-- The world changes under the same waiting calls. -/
theorem Holds.world (h : Holds Good w stack) (hgood : Good w' (stack.map Suspended.frame)) :
    Holds Good w' stack := by
  cases stack with
  | nil => exact hgood
  | cons f rest => exact ⟨hgood, h.2⟩

theorem Holds.begin (h : Holds Good m.world m.stack) {g : F} (hgood : Good w' (g :: m.frames)) :
    Holds Good (m.begin w' g).world (m.begin w' g).stack :=
  ⟨hgood, h⟩

theorem Holds.revert (h : Holds Good m.world m.stack) :
    Holds Good m.revert.world m.revert.stack := by
  obtain ⟨w, stack⟩ := m
  cases stack with
  | nil => exact h
  | cons f rest => exact h.2

/-- The topmost call goes on to `g`. -/
theorem Holds.move (h : Holds Good w (f :: stack)) {g : F}
    (hgood : Good w' (g :: stack.map Suspended.frame)) :
    Holds Good w' (⟨f.snapshot, g⟩ :: stack) :=
  ⟨hgood, h.2⟩

/-- The topmost call returns. -/
theorem Holds.return (h : Holds Good w (f :: stack))
    (hgood : Good w' (stack.map Suspended.frame)) : Holds Good w' stack :=
  h.2.world hgood

end Rules

end Lib
