import QueryWire.Expr

namespace QueryWire

inductive Segment where
  | field (name : String)
  | index (n : Int64)
deriving DecidableEq, Repr

/-- A field is addressed by a string and an index by a long. -/
def Segment.toExpr {ν : Type} [Leaf ν] : Segment → Expr ν
  | .field name => .text name
  | .index n => .long n

structure Path where
  /-- The segments, the last one first, so that a longer path shares those of a
  shorter one. -/
  reversed : List Segment := []
  size : Nat := 0

namespace Path

def root : Path := ⟨[], 0⟩

def push (path : Path) (segment : Segment) : Path :=
  ⟨segment :: path.reversed, path.size + 1⟩

/-- The path with segments added at its end. -/
def narrow (path : Path) (segments : List Segment) : Path :=
  segments.foldl push path

def ofSegments (segments : List Segment) : Path :=
  root.narrow segments

def isEmpty (path : Path) : Bool := path.size == 0

/-- The segments from the root outwards. -/
def segments (path : Path) : List Segment := path.reversed.reverse

/-- The array of segments that `select` and `contains` take. -/
def toExpr {ν : Type} [Leaf ν] (path : Path) : Expr ν :=
  .array (path.segments.map Segment.toExpr)

theorem segments_push (path : Path) (segment : Segment) :
    (path.push segment).segments = path.segments ++ [segment] := by
  simp [push, segments]

theorem segments_narrow (path : Path) (added : List Segment) :
    (path.narrow added).segments = path.segments ++ added := by
  induction added generalizing path with
  | nil => simp [narrow]
  | cons segment added ih =>
      change ((path.push segment).narrow added).segments = _
      rw [ih, segments_push, List.append_assoc, List.singleton_append]

theorem size_narrow (path : Path) (added : List Segment) :
    (path.narrow added).size = path.size + added.length := by
  induction added generalizing path with
  | nil => rfl
  | cons segment added ih =>
      change ((path.push segment).narrow added).size = _
      rw [ih, List.length_cons]
      simp only [push]
      omega

def same (path other : Path) : Bool :=
  path.size == other.size && path.segments == other.segments

end Path

end QueryWire
