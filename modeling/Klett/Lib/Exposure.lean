import Mathlib.Algebra.Order.Group.Abs
import Mathlib.Tactic.Abel

namespace Klett.Lib

variable {G : Type*} [AddCommGroup G] [LinearOrder G] [IsOrderedAddMonoid G]

structure Exposure (G : Type*) where
  net : G
  up : G
  down : G

namespace Exposure

/-- Even if everything promised in one direction happens and nothing in the other,
the net amount stays within `limit`. -/
structure Within (limit : G) (e : Exposure G) : Prop where
  up_nonneg : 0 ≤ e.up
  down_nonneg : 0 ≤ e.down
  above : e.net + e.up ≤ limit
  below : -limit ≤ e.net - e.down

def promiseUp (e : Exposure G) (q : G) : Exposure G := { e with up := e.up + q }
def promiseDown (e : Exposure G) (q : G) : Exposure G := { e with down := e.down + q }
def keepUp (e : Exposure G) (q : G) : Exposure G := { e with net := e.net + q, up := e.up - q }
def keepDown (e : Exposure G) (q : G) : Exposure G := { e with net := e.net - q, down := e.down - q }
def dropUp (e : Exposure G) (q : G) : Exposure G := { e with up := e.up - q }
def dropDown (e : Exposure G) (q : G) : Exposure G := { e with down := e.down - q }

variable {limit q : G} {e : Exposure G}

theorem Within.abs_net_le (h : e.Within limit) : |e.net| ≤ limit :=
  abs_le.mpr ⟨h.below.trans (sub_le_self _ h.down_nonneg),
    (le_add_of_nonneg_right h.up_nonneg).trans h.above⟩

theorem Within.flat (h : 0 ≤ limit) : (⟨0, 0, 0⟩ : Exposure G).Within limit :=
  ⟨le_rfl, le_rfl, by simpa using h, by simpa using h⟩

theorem Within.promiseUp (h : e.Within limit) (hq : 0 ≤ q) (hl : e.net + q + e.up ≤ limit) :
    (e.promiseUp q).Within limit where
  up_nonneg := add_nonneg h.up_nonneg hq
  down_nonneg := h.down_nonneg
  above := by
    calc e.net + (e.up + q) = e.net + q + e.up := by abel
      _ ≤ limit := hl
  below := h.below

theorem Within.promiseDown (h : e.Within limit) (hq : 0 ≤ q) (hl : -limit ≤ e.net - q - e.down) :
    (e.promiseDown q).Within limit where
  up_nonneg := h.up_nonneg
  down_nonneg := add_nonneg h.down_nonneg hq
  above := h.above
  below := by
    calc -limit ≤ e.net - q - e.down := hl
      _ = e.net - (e.down + q) := by abel

theorem Within.keepUp (h : e.Within limit) (hq : 0 ≤ q) (hu : q ≤ e.up) :
    (e.keepUp q).Within limit where
  up_nonneg := sub_nonneg.mpr hu
  down_nonneg := h.down_nonneg
  above := by
    calc e.net + q + (e.up - q) = e.net + e.up := by abel
      _ ≤ limit := h.above
  below := by
    calc -limit ≤ e.net - e.down := h.below
      _ ≤ e.net + q - e.down := sub_le_sub_right (le_add_of_nonneg_right hq) _

theorem Within.keepDown (h : e.Within limit) (hq : 0 ≤ q) (hd : q ≤ e.down) :
    (e.keepDown q).Within limit where
  up_nonneg := h.up_nonneg
  down_nonneg := sub_nonneg.mpr hd
  above := by
    calc e.net - q + e.up ≤ e.net + e.up := add_le_add_left (sub_le_self _ hq) _
      _ ≤ limit := h.above
  below := by
    calc -limit ≤ e.net - e.down := h.below
      _ = e.net - q - (e.down - q) := by abel

theorem Within.dropUp (h : e.Within limit) (hq : 0 ≤ q) (hu : q ≤ e.up) :
    (e.dropUp q).Within limit where
  up_nonneg := sub_nonneg.mpr hu
  down_nonneg := h.down_nonneg
  above := (add_le_add_right (sub_le_self _ hq) _).trans h.above
  below := h.below

theorem Within.dropDown (h : e.Within limit) (hq : 0 ≤ q) (hd : q ≤ e.down) :
    (e.dropDown q).Within limit where
  up_nonneg := h.up_nonneg
  down_nonneg := sub_nonneg.mpr hd
  above := h.above
  below := h.below.trans (sub_le_sub_left (sub_le_self _ hq) _)

end Exposure

end Klett.Lib
