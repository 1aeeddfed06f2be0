/-!
# Shared locations

A location is a point that several values may share: whoever moves it moves it for all. Shared
points live in a heap, and values hold references into it.
-/

namespace LiveCalls

/-- Coordinates in the world. -/
structure Point where
  x : Float
  y : Float
  z : Float
  deriving Inhabited

def Point.moved (p : Point) (dx dy dz : Float) : Point := ⟨p.x + dx, p.y + dy, p.z + dz⟩

/-- A reference to a cell of a heap. -/
structure Ref where
  index : Nat
  deriving DecidableEq, Repr, Inhabited

/-- The cells that hold shared points. -/
structure Heap where
  cells : Array Point
  deriving Inhabited

namespace Heap

def empty : Heap := ⟨#[]⟩

def size (h : Heap) : Nat := h.cells.size

/-- The point in a cell; the origin where there is no cell. -/
def read (h : Heap) (r : Ref) : Point := h.cells[r.index]?.getD ⟨0, 0, 0⟩

def alloc (h : Heap) (p : Point) : Ref × Heap := (⟨h.size⟩, ⟨h.cells.push p⟩)

def write (h : Heap) (r : Ref) (p : Point) : Heap := ⟨h.cells.setIfInBounds r.index p⟩

@[simp] theorem size_alloc (h : Heap) (p : Point) : (h.alloc p).2.size = h.size + 1 := by
  simp [alloc, size]

@[simp] theorem size_write (h : Heap) (r : Ref) (p : Point) : (h.write r p).size = h.size := by
  simp [write, size]

@[simp] theorem read_alloc_self (h : Heap) (p : Point) :
    (h.alloc p).2.read (h.alloc p).1 = p := by
  simp [alloc, read, size]

theorem read_alloc_of_lt {h : Heap} {r : Ref} (p : Point) (hr : r.index < h.size) :
    (h.alloc p).2.read r = h.read r := by
  simp only [alloc, read, size] at *
  rw [Array.getElem?_push_lt hr, Array.getElem?_eq_getElem hr]

theorem read_write_self {h : Heap} {r : Ref} (p : Point) (hr : r.index < h.size) :
    (h.write r p).read r = p := by
  simp only [write, read, size] at *
  simp [hr]

theorem read_write_of_ne {h : Heap} {r s : Ref} (p : Point) (hrs : r ≠ s) :
    (h.write r p).read s = h.read s := by
  have : r.index ≠ s.index := fun he => hrs (by cases r; cases s; simp_all)
  simp [write, read, Array.getElem?_setIfInBounds_ne this]

end Heap

end LiveCalls
