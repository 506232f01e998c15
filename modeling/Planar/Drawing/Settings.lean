import Planar.Scalar

/-!
# Drawing settings

The window of a picture, what decides its size, and how many places its numbers have. A `Session`
keeps the settings in force next to copies that have been taken of them.
-/

namespace Planar

/-- A rectangle of the plane. -/
structure Window (α : Type) where
  xmin : α
  xmax : α
  ymin : α
  ymax : α
deriving DecidableEq

/-- How a picture is laid out: the margin around the anchors, the window of a picture without
anchors, the least width and height, the scale, and the decimal places of numbers. -/
structure Settings (α : Type) where
  padding : α
  fallback : Window α
  minExtent : α
  scale : α
  decimals : Int
deriving DecidableEq

/-- The settings in force unless others are given. -/
def Settings.default {α : Type} [Scalar α] : Settings α where
  padding := Scalar.ofNat 1
  fallback := ⟨-Scalar.ofNat 5, Scalar.ofNat 5, -Scalar.ofNat 5, Scalar.ofNat 5⟩
  minExtent := Scalar.ofNat 2
  scale := Scalar.ofNat 1
  decimals := 4

/-- The settings in force and the copies that are held, oldest first. -/
structure Session (α : Type) where
  current : Settings α
  held : Array (Settings α)

namespace Session

variable {α : Type}

/-- A session with the default settings and nothing held. -/
def start [Scalar α] : Session α := ⟨.default, #[]⟩

/-- Holds further settings. -/
def hold (session : Session α) (settings : Settings α) : Session α :=
  { session with held := session.held.push settings }

/-- The settings held at place `i`. -/
def get? (session : Session α) (i : Nat) : Option (Settings α) := session.held[i]?

/-- Changes the margin of the settings held at place `i`, and of no others. -/
def setPadding (session : Session α) (i : Nat) (padding : α) : Session α :=
  { session with held := session.held.modify i ({ · with padding }) }

/-- Puts a copy of the settings held at place `i` in force. -/
def adopt (session : Session α) (i : Nat) : Session α :=
  { session with current := (session.get? i).getD session.current }

@[simp]
theorem current_setPadding (session : Session α) (i : Nat) (padding : α) :
    (session.setPadding i padding).current = session.current := rfl

theorem get?_setPadding (session : Session α) (i j : Nat) (padding : α) :
    (session.setPadding i padding).get? j =
      if i = j then (session.get? j).map ({ · with padding }) else session.get? j := by
  simp [setPadding, get?, Array.getElem?_modify]

end Session

end Planar
