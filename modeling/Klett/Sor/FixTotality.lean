import Klett.Lib.Decimal
import Klett.Sor.FixGateway

namespace Klett.Sor.FixGateway

open Klett.Lib FixedString Decimal

section Model

variable {V : Type} [VenueAdapter V] (P : Platform) (msg : List UInt8)

/-- What a message does: its calls of the gateway, and whether an exception leaves `on_fix_message`. -/
structure Handled (V : Type) [VenueAdapter V] where
  calls : List (Action V) := []
  threw : Bool := false

def handle : Handled V :=
  if getTag msg "35" = ascii "D" then
    match newOrderSingle P msg with
    | some order => { calls := [.submitOrder order] }
    | none => { threw := true }
  else if getTag msg "35" = ascii "F" then
    match orderCancelRequest msg with
    | some request => { calls := [.cancelOrder request] }
    | none => { threw := true }
  else {}

theorem handle_calls : (handle P msg : Handled V).calls = (onFixMessage P msg).toList := by
  unfold handle onFixMessage
  split_ifs
  · cases newOrderSingle P msg <;> rfl
  · cases orderCancelRequest msg <;> rfl
  · rfl

end Model

section Totality

variable {V : Type} [VenueAdapter V] {P : Platform} {msg : List UInt8}

/-- A field that is there reads as a number from end to end, in the range of its type. -/
def IdField (s : List UInt8) : Prop := s = [] ∨ ∃ z, wholeInteger s = some z ∧ 0 ≤ z ∧ z < 2 ^ 64

def QuantityField (s : List UInt8) : Prop := s = [] ∨ ∃ z, wholeInteger s = some z ∧ -2 ^ 63 ≤ z ∧ z < 2 ^ 63

def PriceField (P : Platform) (s : List UInt8) : Prop :=
  s = [] ∨ ∃ x, wholeDouble P s = some x ∧
    -2 ^ 63 ≤ Platform.truncate (scaledPrice P x) ∧ Platform.truncate (scaledPrice P x) < 2 ^ 63

structure NumericFields (P : Platform) (msg : List UInt8) : Prop where
  order : getTag msg "35" = ascii "D" →
    IdField (getTag msg "11") ∧ QuantityField (getTag msg "38") ∧ PriceField P (getTag msg "44")
  cancel : getTag msg "35" = ascii "F" → IdField (getTag msg "41") ∧ IdField (getTag msg "11")

structure Total (V : Type) [VenueAdapter V] (P : Platform) (msg : List UInt8) : Prop where
  returns : (handle P msg : Handled V).threw = false
  once : (handle P msg : Handled V).calls.length ≤ 1
  refused : ¬NumericFields P msg → (handle P msg : Handled V).calls = []

theorem IdField.read {s : List UInt8} (h : IdField s) : ∃ id, field invalidOrderId stoull s = some id := by
  unfold field
  obtain rfl | ⟨z, hz, hlow, hhigh⟩ := h
  · exact ⟨_, rfl⟩
  · split_ifs
    · exact ⟨_, rfl⟩
    · exact stoull_of_whole hz hlow hhigh

theorem QuantityField.read {s : List UInt8} (h : QuantityField s) : ∃ quantity, field 0 stoll s = some quantity := by
  unfold field
  obtain rfl | ⟨z, hz, hlow, hhigh⟩ := h
  · exact ⟨_, rfl⟩
  · split_ifs
    · exact ⟨_, rfl⟩
    · exact ⟨z, stoll_of_whole hz hlow hhigh⟩

theorem PriceField.read {s : List UInt8} (h : PriceField P s) :
    ∃ price, field invalidPrice (parsePrice P) s = some price := by
  unfold field
  obtain rfl | ⟨x, hx, -, -⟩ := h
  · exact ⟨_, rfl⟩
  · unfold wholeDouble at hx
    split_ifs at hx with hrest
    split_ifs
    · exact ⟨_, rfl⟩
    · exact ⟨toPrice P x, parsePrice_of_number P hx⟩

theorem newOrderSingle_read (hid : IdField (getTag msg "11")) (hquantity : QuantityField (getTag msg "38"))
    (hprice : PriceField P (getTag msg "44")) : ∃ order, newOrderSingle P msg = some order := by
  obtain ⟨id, hid⟩ := hid.read
  obtain ⟨quantity, hquantity⟩ := hquantity.read
  obtain ⟨price, hprice⟩ := hprice.read
  unfold newOrderSingle
  rw [hid, Option.bind_some, hquantity, Option.bind_some, hprice, Option.map_some]
  exact ⟨_, rfl⟩

theorem orderCancelRequest_read (horder : IdField (getTag msg "41")) (hid : IdField (getTag msg "11")) :
    ∃ request, orderCancelRequest msg = some request := by
  obtain ⟨orderId, horder⟩ := horder.read
  obtain ⟨id, hid⟩ := hid.read
  unfold orderCancelRequest
  rw [horder, Option.bind_some, hid, Option.map_some]
  exact ⟨_, rfl⟩

theorem handle_once : (handle P msg : Handled V).calls.length ≤ 1 := by
  rw [handle_calls]
  cases onFixMessage (V := V) P msg <;> simp

theorem handle_returns (h : NumericFields P msg) : (handle P msg : Handled V).threw = false := by
  unfold handle
  split_ifs with hd hf
  · obtain ⟨hid, hquantity, hprice⟩ := h.order hd
    obtain ⟨order, horder⟩ := newOrderSingle_read hid hquantity hprice
    rw [horder]
  · obtain ⟨horder, hid⟩ := h.cancel hf
    obtain ⟨request, hrequest⟩ := orderCancelRequest_read horder hid
    rw [hrequest]
  · rfl

theorem handle_calls_of_returns (hreturns : (handle P msg : Handled V).threw = false)
    (htype : getTag msg "35" = ascii "D" ∨ getTag msg "35" = ascii "F") : (handle P msg : Handled V).calls ≠ [] := by
  unfold handle at hreturns ⊢
  split_ifs at hreturns ⊢ with hd hf
  · cases hread : newOrderSingle P msg with
    | none => simp [hread] at hreturns
    | some order => simp
  · cases hread : orderCancelRequest msg with
    | none => simp [hread] at hreturns
    | some request => simp
  · exact absurd htype (not_or.mpr ⟨hd, hf⟩)

/-- The conversions throw, stop early or wrap: every number that is not one from end to end breaks the promise. -/
theorem total_iff_numericFields (V : Type) [VenueAdapter V] (P : Platform) (msg : List UInt8) :
    Total V P msg ↔ NumericFields P msg := by
  constructor
  · intro h
    by_contra hnumeric
    by_cases htype : getTag msg "35" = ascii "D" ∨ getTag msg "35" = ascii "F"
    · exact handle_calls_of_returns h.returns htype (h.refused hnumeric)
    · obtain ⟨hd, hf⟩ := not_or.mp htype
      exact hnumeric ⟨fun heq => absurd heq hd, fun heq => absurd heq hf⟩
  · intro h
    exact ⟨handle_returns h, handle_once, fun hnot => absurd h hnot⟩

/-- A price that is no number goes out as the least price. -/
example : (newOrderSingle .exact (ascii "35=D" ++ 1 :: ascii "44=nan")).map Order.price = some (-2 ^ 63) := by decide

def lettersForId : List UInt8 := ascii "35=D" ++ 1 :: ascii "11=abc"

def lettersBehindId : List UInt8 := ascii "35=D" ++ 1 :: ascii "11=12abc"

theorem not_numericFields_of_id {msg : List UInt8} (htype : getTag msg "35" = ascii "D")
    (hne : getTag msg "11" ≠ []) (hwhole : wholeInteger (getTag msg "11") = none) : ¬NumericFields P msg := by
  intro h
  obtain hempty | ⟨z, hz, -⟩ := (h.order htype).1
  · exact hne hempty
  · rw [hwhole] at hz
    cases hz

/-- One ClOrdID throws, and of the other the digits in front are submitted. -/
theorem not_total_letters :
    ((handle .exact lettersForId : Handled SimulatedExchange).threw = true ∧
      ¬NumericFields .exact lettersForId ∧ ¬Total SimulatedExchange .exact lettersForId) ∧
    ∃ order, (handle .exact lettersBehindId : Handled SimulatedExchange).calls = [.submitOrder order] ∧
      order.clientOrderId = 12 ∧ ¬NumericFields .exact lettersBehindId ∧
      ¬Total SimulatedExchange .exact lettersBehindId := by
  have hfirst : newOrderSingle .exact lettersForId = none := by decide
  have hthrew : (handle .exact lettersForId : Handled SimulatedExchange).threw = true := by
    unfold handle
    rw [if_pos (by decide), hfirst]
  have hnumeric : ¬NumericFields .exact lettersForId :=
    not_numericFields_of_id (by decide) (by decide) (by decide)
  have hbehind : ¬NumericFields .exact lettersBehindId :=
    not_numericFields_of_id (by decide) (by decide) (by decide)
  refine ⟨⟨hthrew, hnumeric, fun h => ?_⟩, ?_⟩
  · have hreturns := h.returns
    rw [hthrew] at hreturns
    cases hreturns
  · have hsecond : (newOrderSingle .exact lettersBehindId).map Order.clientOrderId = some 12 := by decide
    obtain ⟨order, horder, hid⟩ := Option.map_eq_some_iff.mp hsecond
    have hcalls : (handle .exact lettersBehindId : Handled SimulatedExchange).calls = [.submitOrder order] := by
      unfold handle
      rw [if_pos (by decide), horder]
    refine ⟨order, hcalls, hid, hbehind, fun h => ?_⟩
    have hrefused := h.refused hbehind
    rw [hcalls] at hrefused
    cases hrefused

end Totality

end Klett.Sor.FixGateway
