import Mathlib.Logic.Basic

/-!
# Conversions between a fine and a coarse unit

Values of a fine unit are brought to a coarse one and back. Only some values of the coarse unit can
be brought back without overflow, and every value that comes from the fine unit can. What a value
becomes when it is brought to the coarse unit and back follows from the laws of the two conversions.
-/

/-- The two conversions: `down` to the coarse unit `β`, `up` to the fine unit `α`. -/
structure Coarsening (α β : Type*) [LE α] [LE β] where
  down : α → β
  up : β → α
  /-- The values that `up` does not overflow on. -/
  Fits : β → Prop
  fits_down : ∀ a, Fits (down a)
  down_mono : ∀ {a b}, a ≤ b → down a ≤ down b
  up_mono : ∀ {x y}, Fits x → Fits y → x ≤ y → up x ≤ up y
  down_up : ∀ {x}, Fits x → down (up x) = x

namespace Coarsening

variable {α β : Type*} [LE α] [LE β] (c : Coarsening α β) {a b : α}

/-- Down to the coarse unit and back. -/
def coarsen (a : α) : α := c.up (c.down a)

theorem coarsen_mono (h : a ≤ b) : c.coarsen a ≤ c.coarsen b :=
  c.up_mono (c.fits_down a) (c.fits_down b) (c.down_mono h)

theorem down_coarsen (a : α) : c.down (c.coarsen a) = c.down a := c.down_up (c.fits_down a)

theorem coarsen_coarsen (a : α) : c.coarsen (c.coarsen a) = c.coarsen a := by
  rw [coarsen, down_coarsen]
  rfl

end Coarsening
