import ImageViews.Border
import ImageViews.Sampler.Basic

/-!
# Samplers with a border

A border extends a sampler to all coordinates. A pixel inside the extent is the pixel itself;
outside it is the one that the border maps to, or blank.
-/
namespace ImageViews

variable {σ α : Type}

/-- The pixel of `s` at any coordinates. -/
def Border.pixel (border : Border) (s : Sampler σ α) (blank : α) (x y : Int) (p : Nat) :
    Probe σ α := do
  if 0 ≤ x ∧ 0 ≤ y ∧ x < s.cols ∧ y < s.rows then
    s.get x y p
  else if border = .zero ∨ s.cols = 0 ∨ s.rows = 0 then
    return blank
  else
    let column ← border.index x s.cols
    let row ← border.index y s.rows
    s.get (Coordinate.ofExtent column) (Coordinate.ofExtent row) p

def Sampler.extend (s : Sampler σ α) (border : Border) (blank : α) : Sampler σ α :=
  .computed s.cols s.rows s.planes (border.pixel s blank)

end ImageViews
