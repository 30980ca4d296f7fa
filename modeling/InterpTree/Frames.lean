import InterpTree.Text

/-!
Call frames. Every push gives a marker; popping through a marker drops its frame and every frame
left open above it.
-/

namespace InterpTree

namespace FrameFlags

/-- An alias call, which sees no frames below. -/
def restricted : Nat := 1
/-- A call through an alias. -/
def viaAlias : Nat := 2
/-- A call of a hidden command. -/
def hidden : Nat := 4
/-- The evaluation of a script from another interpreter. -/
def evaluate : Nat := 8
/-- A hidden command run at global level. -/
def atGlobal : Nat := 16

end FrameFlags

/-- A call frame: what was called, why the frame is there, and the marker that names it. -/
structure Frame where
  name : Text
  flags : Nat
  marker : Nat
deriving DecidableEq

/-- A stack of frames, innermost first, and the last marker issued. -/
structure CallStack where
  frames : List Frame := []
  issued : Nat := 0
deriving DecidableEq

namespace CallStack

/-- A new frame on top, and its marker. -/
def push (name : Text) (flags : Nat) (s : CallStack) : Nat × CallStack :=
  (s.issued + 1, ⟨⟨name, flags, s.issued + 1⟩ :: s.frames, s.issued + 1⟩)

/-- The frames from the one named by `marker` downward. -/
def downTo (marker : Nat) (s : CallStack) : List Frame :=
  s.frames.dropWhile fun f => f.marker != marker

/-- Drops the frame named by `marker` with all above it, and tells how many that were. A marker of
no frame on the stack drops nothing. -/
def popThrough (marker : Nat) (s : CallStack) : Nat × CallStack :=
  match s.downTo marker with
  | [] => (0, s)
  | _ :: below => (s.frames.length - below.length, { s with frames := below })

def depth (s : CallStack) : Nat := s.frames.length

/-- The frames, innermost last. -/
def toList (s : CallStack) : List Frame := s.frames.reverse

end CallStack

end InterpTree
