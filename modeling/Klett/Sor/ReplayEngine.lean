import Klett.Lib.Bytes

namespace Klett.Sor

open Klett.Lib

/-- How a `MarketDataTick` lies in memory: its size, the bytes of a fresh one, and the tick that bytes make. -/
structure TickLayout (Tick : Type) where
  width : ℕ
  blank : List UInt8
  blankFits : blank.length = width
  value : List UInt8 → Tick

structure ReplayEngine {Tick : Type} (layout : TickLayout Tick) where
  buffer : RawBuffer layout.width

namespace ReplayEngine

section Model

variable {Tick : Type} {layout : TickLayout Tick} (e : ReplayEngine layout)

def ticks : List Tick := (List.range e.buffer.count).map fun i => layout.value (e.buffer.record i)

/-- The eight bytes of a `uint64_t`, the least significant first. -/
def countBytes (n : ℕ) : List UInt8 := (toBytes 8 n).reverse

def readCount (header : List UInt8) : ℕ := ofBytes header.reverse

/-- A file that cannot be opened is `none`. A read that meets the end of the file has stored what there was. -/
def loadFromBinary : Option (List UInt8) → Bool × ReplayEngine layout
  | none => (false, e)
  | some file =>
    let count := readCount (file.take 8)
    if file.length < 8 ∨ count = 0 then (false, e)
    else if count > 100000000 then (false, e)
    else
      let resized := e.buffer.resize layout.blank layout.blankFits count
      let body := (file.drop 8).take (count * layout.width)
      (body.length = count * layout.width, ⟨resized.overlay body⟩)

def saveToBinary : List UInt8 := countBytes e.buffer.count ++ e.buffer.bytes

end Model

section Loading

variable {Tick : Type} {layout : TickLayout Tick} {e : ReplayEngine layout} {file : List UInt8}

/-- The file announces an admissible number of ticks and ends before the last of them. -/
def Truncated (layout : TickLayout Tick) (file : List UInt8) : Prop :=
  8 ≤ file.length ∧ 1 ≤ readCount (file.take 8) ∧ readCount (file.take 8) ≤ 100000000 ∧
    file.length < 8 + readCount (file.take 8) * layout.width

/-- The file announces as many ticks as there are, and what it has of them makes the same ticks. -/
def Agrees (e : ReplayEngine layout) (file : List UInt8) : Prop :=
  readCount (file.take 8) = e.buffer.count ∧
    ∀ i < e.buffer.count, layout.value ((e.buffer.overlay (file.drop 8)).record i) = layout.value (e.buffer.record i)

theorem readCount_countBytes {n : ℕ} (h : n < 2 ^ 64) : readCount (countBytes n) = n := by
  unfold readCount countBytes
  rw [List.reverse_reverse, ofBytes_toBytes]
  exact Nat.mod_eq_of_lt h

theorem ticks_length : e.ticks.length = e.buffer.count := by rw [ticks, List.length_map, List.length_range]

theorem ticks_eq_iff {f : ReplayEngine layout} : f.ticks = e.ticks ↔ f.buffer.count = e.buffer.count ∧
    ∀ i < e.buffer.count, layout.value (f.buffer.record i) = layout.value (e.buffer.record i) := by
  constructor
  · intro h
    have hcount : f.buffer.count = e.buffer.count := by rw [← ticks_length, h, ticks_length]
    refine ⟨hcount, fun i hi => ?_⟩
    unfold ticks at h
    rw [hcount] at h
    exact List.map_inj_left.mp h i (List.mem_range.mpr hi)
  · rintro ⟨hcount, hall⟩
    unfold ticks
    rw [hcount]
    exact List.map_congr_left fun i hi => hall i (List.mem_range.mp hi)

theorem load_save (e saved : ReplayEngine layout) (hpos : 1 ≤ saved.buffer.count)
    (hmax : saved.buffer.count ≤ 100000000) : e.loadFromBinary (some saved.saveToBinary) = (true, saved) := by
  have hlength : (countBytes saved.buffer.count).length = 8 := by rw [countBytes, List.length_reverse, length_toBytes]
  have hcount : readCount (saved.saveToBinary.take 8) = saved.buffer.count := by
    rw [saveToBinary, List.take_left' hlength]
    exact readCount_countBytes (Nat.lt_of_le_of_lt hmax (by decide))
  have hbody : (saved.saveToBinary.drop 8).take (saved.buffer.count * layout.width) = saved.buffer.bytes := by
    rw [saveToBinary, List.drop_left' hlength, ← saved.buffer.fits, List.take_length]
  have hlong : ¬(saved.saveToBinary.length < 8 ∨ saved.buffer.count = 0) := by
    rw [saveToBinary, List.length_append, hlength]
    omega
  unfold loadFromBinary
  simp only [hcount, hbody]
  rw [if_neg hlong, if_neg (Nat.not_lt.mpr hmax), saved.buffer.fits, decide_eq_true rfl]
  have hbuffer := RawBuffer.overlay_full (c := saved.buffer)
    (b := e.buffer.resize layout.blank layout.blankFits saved.buffer.count) rfl
  rw [hbuffer]

theorem loadFromBinary_truncated (h : Truncated layout file) : e.loadFromBinary (some file) =
    (false, ⟨(e.buffer.resize layout.blank layout.blankFits (readCount (file.take 8))).overlay (file.drop 8)⟩) := by
  obtain ⟨hheader, hpos, hmax, hshort⟩ := h
  have hbody : (file.drop 8).take (readCount (file.take 8) * layout.width) = file.drop 8 := by
    apply List.take_of_length_le
    rw [List.length_drop]
    omega
  have hlength : (file.drop 8).length ≠ readCount (file.take 8) * layout.width := by
    rw [List.length_drop]
    omega
  have hlong : ¬(file.length < 8 ∨ readCount (file.take 8) = 0) := by omega
  unfold loadFromBinary
  simp only [hbody]
  rw [if_neg hlong, if_neg (Nat.not_lt.mpr hmax), decide_eq_false hlength]

theorem loadFromBinary_not_truncated (h : ¬Truncated layout file) :
    (e.loadFromBinary (some file)).1 = true ∨ e.loadFromBinary (some file) = (false, e) := by
  unfold loadFromBinary
  simp only
  split_ifs with hlong hmax
  · exact .inr rfl
  · exact .inr rfl
  · left
    apply decide_eq_true
    rw [List.length_take, List.length_drop]
    unfold Truncated at h
    omega

theorem ticks_truncated_iff (h : Truncated layout file) :
    (e.loadFromBinary (some file)).2.ticks = e.ticks ↔ Agrees e file := by
  rw [loadFromBinary_truncated h, ticks_eq_iff]
  apply and_congr_right
  intro hcount
  have hcount : readCount (file.take 8) = e.buffer.count := hcount
  rw [hcount, RawBuffer.resize_self]

/-- A truncated body is read over the ticks before the load fails. -/
theorem load_atomic_iff {Tick : Type} (layout : TickLayout Tick) :
    (∀ e saved : ReplayEngine layout, 1 ≤ saved.buffer.count → saved.buffer.count ≤ 100000000 →
      e.loadFromBinary (some saved.saveToBinary) = (true, saved)) ∧
    ∀ (e : ReplayEngine layout) (source : Option (List UInt8)),
      ((e.loadFromBinary source).1 = false → (e.loadFromBinary source).2.ticks = e.ticks) ↔
        ∀ file, source = some file → Truncated layout file → Agrees e file := by
  refine ⟨fun e saved => load_save e saved, fun e source => ?_⟩
  cases source with
  | none => exact iff_of_true (fun _ => rfl) fun file h => by cases h
  | some file =>
    by_cases htruncated : Truncated layout file
    · have hfalse : (e.loadFromBinary (some file)).1 = false := by rw [loadFromBinary_truncated htruncated]
      constructor
      · intro h other hother _
        obtain rfl := Option.some.inj hother
        exact (ticks_truncated_iff htruncated).mp (h hfalse)
      · intro h _
        exact (ticks_truncated_iff htruncated).mpr (h file rfl htruncated)
    · apply iff_of_true
      · intro hfalse
        obtain htrue | hsame := loadFromBinary_not_truncated (e := e) htruncated
        · rw [htrue] at hfalse
          cases hfalse
        · rw [hsame]
      · intro other hother hbad
        obtain rfl := Option.some.inj hother
        exact absurd hbad htruncated

def rawTicks : TickLayout (List UInt8) where
  width := 720
  blank := List.replicate 720 0
  blankFits := List.length_replicate
  value bytes := bytes

def oneTick : ReplayEngine rawTicks where
  buffer := ⟨1, List.replicate 720 7, List.length_replicate⟩

/-- A header that announces two ticks, and none behind it, leaves two ticks in an engine that had one. -/
theorem load_keeps_header_count :
    (oneTick.loadFromBinary (some (countBytes 2))).1 = false ∧
      (oneTick.loadFromBinary (some (countBytes 2))).2.ticks.length = 2 ∧
      (oneTick.loadFromBinary (some (countBytes 2))).2.ticks ≠ oneTick.ticks := by
  have hcount : readCount ((countBytes 2).take 8) = 2 := by decide
  have htruncated : Truncated rawTicks (countBytes 2) := by
    unfold Truncated
    rw [hcount]
    decide
  have htwo : (oneTick.loadFromBinary (some (countBytes 2))).2.ticks.length = 2 := by
    rw [loadFromBinary_truncated htruncated, ticks_length]
    exact hcount
  have hone : oneTick.ticks.length = 1 := ticks_length
  refine ⟨?_, htwo, fun heq => ?_⟩
  · rw [loadFromBinary_truncated htruncated]
  · rw [heq, hone] at htwo
    cases htwo

end Loading

end ReplayEngine

end Klett.Sor
