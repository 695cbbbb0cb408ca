import Klett.Lib.Slots
import Klett.Sor.MpscQueue

namespace Klett.Sor.MpscQueue

open Klett.Lib RingIndex

theorem mask_two_pow (k pos : ℕ) : mask (2 ^ k) pos = pos % 2 ^ k := Nat.and_two_pow_sub_one_eq_mod pos k

section Invariant

variable {ι α : Type}

def Producer.holds : Producer α → Option ℕ
  | .write _ pos => some pos
  | .publish _ pos => some pos
  | _ => none

def Producing (c r : ℕ) (claimed : List α) (cells : ℕ → Cell α) : Producer α → Prop
  | .loadSequence _ pos => pos ≤ claimed.length
  | .exchange _ pos => pos ≤ claimed.length ∧ pos < r + c
  | .write item pos => claimed[pos]? = some item ∧ r ≤ pos ∧ (cells (pos % c)).sequence = pos
  | .publish item pos => claimed[pos]? = some item ∧ r ≤ pos ∧ cells (pos % c) = { sequence := pos, data := some item }
  | _ => True

structure Ring (c r : ℕ) (s : State ι α) : Prop where
  written : s.writePos = s.claimed.length
  room : s.claimed.length ≤ r + c
  counted : s.claimed.length < size ∧ ∀ p, (s.cells (p % c)).sequence < size
  order : s.popped <+: s.claimed.map some
  moved : r ≤ s.popped.length
  free : ∀ p, s.claimed.length ≤ p → p < r + c → (s.cells (p % c)).sequence = p
  taken : ∀ p, r ≤ p → p < s.claimed.length →
    (∃ i, (s.producers i).holds = some p) ∨ (s.cells (p % c)).sequence = p + 1
  stored : ∀ p item, s.popped.length ≤ p → s.claimed[p]? = some item → (s.cells (p % c)).sequence = p + 1 →
    (s.cells (p % c)).data = some item
  producing : ∀ i, Producing c r s.claimed s.cells (s.producers i)
  alone : ∀ i j p, (s.producers i).holds = some p → (s.producers j).holds = some p → i = j

variable {c r : ℕ} {s : State ι α} {i : ι} {item : α} {pos : ℕ} {q : Producer α}

theorem Producing.held {claimed : List α} {cells : ℕ → Cell α} (h : Producing c r claimed cells q)
    (hq : q.holds = some pos) : r ≤ pos ∧ pos < claimed.length ∧ (cells (pos % c)).sequence = pos := by
  cases q <;> simp only [Producer.holds, Option.some.injEq, reduceCtorEq] at hq
  all_goals
    subst hq
    obtain ⟨hclaimed, hle, hcell⟩ := h
    simp [hcell, hle, (List.getElem?_eq_some_iff.mp hclaimed).1]

theorem Producing.append {claimed : List α} {cells : ℕ → Cell α} (h : Producing c r claimed cells q) :
    Producing c r (claimed ++ [item]) cells q := by
  cases q with
  | idle | loadPos => trivial
  | loadSequence =>
    have : _ ≤ claimed.length := h
    simp only [Producing, List.length_append, List.length_singleton]
    omega
  | exchange =>
    obtain ⟨hle, hlt⟩ := h
    simp only [Producing, List.length_append, List.length_singleton]
    omega
  | write | publish =>
    obtain ⟨hclaimed, h⟩ := h
    have hlt := (List.getElem?_eq_some_iff.mp hclaimed).1
    exact ⟨by rwa [List.getElem?_append_left hlt], h⟩

theorem Producing.release {claimed : List α} {cells : ℕ → Cell α} (h : Producing c r claimed cells q)
    (hq : q.holds ≠ some r) : Producing c (r + 1) claimed cells q := by
  cases q with
  | idle | loadPos => trivial
  | loadSequence => exact h
  | exchange => exact ⟨h.1, by have := h.2; omega⟩
  | write | publish =>
    obtain ⟨hclaimed, hle, hcell⟩ := h
    have hne : r ≠ _ := fun heq => hq (congrArg some heq.symm)
    exact ⟨hclaimed, by omega, hcell⟩

/-- A cell in the window matters only to the producer that holds its position. -/
theorem Producing.update {claimed : List α} {cells : ℕ → Cell α} (h : Producing c r claimed cells q)
    (hroom : claimed.length ≤ r + c) (hle : r ≤ pos) (hlt : pos < r + c) (hq : q.holds ≠ some pos) (cell : Cell α) :
    Producing c r claimed (Function.update cells (pos % c) cell) q := by
  cases q with
  | idle | loadPos => trivial
  | loadSequence => exact h
  | exchange => exact h
  | write item p | publish item p =>
    obtain ⟨hp, hpc, -⟩ := h.held rfl
    obtain ⟨hclaimed, -, hcell⟩ := h
    have hne := mod_ne_of_window hp (hpc.trans_le hroom) hle hlt fun heq => hq (congrArg some heq)
    exact ⟨hclaimed, hp, by rwa [Function.update_of_ne hne]⟩

theorem Ring.released_le (h : Ring c r s) : r ≤ s.claimed.length := by
  have hle := h.order.length_le
  rw [List.length_map] at hle
  exact h.moved.trans hle

theorem Ring.not_held (h : Ring c r s) (hseq : (s.cells (pos % c)).sequence = pos + 1) :
    ∀ i, (s.producers i).holds ≠ some pos := by
  intro i hi
  have := ((h.producing i).held hi).2.2
  omega

/-- The position behind a full ring shares its cell with the oldest one, whose sequence number is too small
unless the ring has one cell. -/
theorem Ring.lt_of_available {k : ℕ} (h : Ring (2 ^ k) r s) (hk : 1 ≤ k) (hle : pos ≤ s.claimed.length)
    (hseq : (s.cells (pos % 2 ^ k)).sequence = pos) : pos < r + 2 ^ k := by
  have htwo : 2 ≤ 2 ^ k := Nat.le_pow hk
  have hroom := h.room
  by_contra hge
  obtain rfl : pos = r + 2 ^ k := by omega
  rw [Nat.add_mod_right] at hseq
  obtain ⟨j, hj⟩ | htaken := h.taken r (Nat.le_refl r) (by omega)
  · have := ((h.producing j).held hj).2.2
    omega
  · omega

section Producers

variable [DecidableEq ι]

theorem atProducer_self : (s.atProducer i q).producers i = q := Function.update_self ..

theorem held_before {f : ι → Producer α} {j : ι} (hj : (Function.update f i q j).holds = some pos)
    (hq : q.holds ≠ some pos) : (f j).holds = some pos := by
  obtain rfl | hne := eq_or_ne j i
  · rw [Function.update_self] at hj
    exact absurd hj hq
  · rwa [Function.update_of_ne hne] at hj

theorem held_after {f : ι → Producer α} (hi : (f i).holds ≠ some pos) (hheld : ∃ j, (f j).holds = some pos) :
    ∃ j, (Function.update f i q j).holds = some pos := by
  obtain ⟨j, hj⟩ := hheld
  have hne : j ≠ i := by
    rintro rfl
    exact hi hj
  exact ⟨j, by rwa [Function.update_of_ne hne]⟩

theorem Ring.quiet (h : Ring c r s) (hheld : (s.producers i).holds = none) (hq : q.holds = none)
    (hproducing : Producing c r s.claimed s.cells q) : Ring c r (s.atProducer i q) where
  written := h.written
  room := h.room
  counted := h.counted
  order := h.order
  moved := h.moved
  free := h.free
  stored := h.stored
  taken := by
    intro p hle hlt
    exact (h.taken p hle hlt).imp (held_after (by rw [hheld]; nofun)) id
  producing := by
    apply (Function.forall_update_iff _ (fun _ x => Producing c r s.claimed s.cells x)).mpr
    exact ⟨hproducing, fun j _ => h.producing j⟩
  alone := by
    intro j k p hj hk
    have hne : q.holds ≠ some p := by rw [hq]; nofun
    exact h.alone j k p (held_before hj hne) (held_before hk hne)

theorem Ring.claim (h : Ring c r s) (hpc : s.producers i = .exchange item s.writePos) (hcount : s.writePos + 1 < size) :
    Ring c r { s.atProducer i (.write item s.writePos) with
      writePos := s.writePos + 1
      claimed := s.claimed ++ [item] } := by
  have hwritten := h.written
  have hproducing := h.producing i
  rw [hpc] at hproducing
  obtain ⟨-, hlt⟩ := hproducing
  rw [hwritten] at hpc hlt hcount ⊢
  have hlength : (s.claimed ++ [item]).length = s.claimed.length + 1 := by simp
  have honly : ∀ j, (Function.update s.producers i (.write item s.claimed.length) j).holds = some s.claimed.length →
      j = i := by
    intro j hj
    by_contra hne
    rw [Function.update_of_ne hne] at hj
    have := ((h.producing j).held hj).2.1
    omega
  exact {
    written := hlength.symm
    room := by
      rw [hlength]
      exact hlt
    counted := ⟨hlength.trans_lt hcount, h.counted.2⟩
    order := by
      apply h.order.trans
      simp
    moved := h.moved
    free := by
      intro p hle
      rw [hlength] at hle
      exact h.free p (by omega)
    taken := by
      intro p hle hp
      rw [hlength] at hp
      obtain rfl | hne := eq_or_ne p s.claimed.length
      · exact .inl ⟨i, by rw [atProducer_self]; rfl⟩
      · exact (h.taken p hle (by omega)).imp (held_after (by rw [hpc]; nofun)) id
    stored := by
      intro p x hle hp hseq
      obtain hlt' | hge := Nat.lt_or_ge p s.claimed.length
      · rw [List.getElem?_append_left hlt'] at hp
        exact h.stored p x hle hp hseq
      · have hp' := (List.getElem?_eq_some_iff.mp hp).1
        rw [hlength] at hp'
        have hfree : p = p + 1 := (h.free p hge (by omega)).symm.trans hseq
        omega
    producing := by
      apply (Function.forall_update_iff _ (fun _ x => Producing c r (s.claimed ++ [item]) s.cells x)).mpr
      exact ⟨⟨by simp, h.released_le, h.free _ (Nat.le_refl _) hlt⟩, fun j _ => (h.producing j).append⟩
    alone := by
      intro j k p hj hk
      obtain rfl | hne := eq_or_ne p s.claimed.length
      · exact (honly j hj).trans (honly k hk).symm
      · have hwrite : (Producer.write item s.claimed.length).holds ≠ some p := fun heq => hne (Option.some.inj heq).symm
        exact h.alone j k p (held_before hj hwrite) (held_before hk hwrite) }

theorem Ring.fill (h : Ring c r s) (hheld : (s.producers i).holds = some pos) {cell : Cell α}
    (hsize : cell.sequence < size) (hproducing : Producing c r s.claimed (Function.update s.cells (pos % c) cell) q)
    (hq : q.holds = some pos ∨ q.holds = none ∧ cell.sequence = pos + 1)
    (hstored : ∀ x, s.claimed[pos]? = some x → cell.sequence = pos + 1 → cell.data = some x) :
    Ring c r ((s.withCell (pos % c) cell).atProducer i q) := by
  obtain ⟨hle, hlt, -⟩ := (h.producing i).held hheld
  have hroom := h.room
  have hcell : ∀ p, r ≤ p → p < r + c → p ≠ pos → Function.update s.cells (pos % c) cell (p % c) = s.cells (p % c) :=
    fun p hp hpc hne => Function.update_of_ne (mod_ne_of_window hp hpc hle (by omega) hne) _ _
  have hholds : ∀ j p, (Function.update s.producers i q j).holds = some p → (s.producers j).holds = some p := by
    intro j p hj
    obtain rfl | hne := eq_or_ne p pos
    · obtain rfl | hji := eq_or_ne j i
      · exact hheld
      · rwa [Function.update_of_ne hji] at hj
    · apply held_before hj
      obtain hq | ⟨hq, -⟩ := hq <;> rw [hq]
      · exact fun heq => hne (Option.some.inj heq).symm
      · nofun
  exact {
    written := h.written
    room := h.room
    counted := by
      refine ⟨h.counted.1, fun p => ?_⟩
      simp only [State.atProducer, State.withCell, Function.update_apply]
      split
      · exact hsize
      · exact h.counted.2 p
    order := h.order
    moved := h.moved
    free := by
      intro p hp hpc
      have hp' : s.claimed.length ≤ p := hp
      simp only [State.atProducer, State.withCell]
      rw [hcell p (by omega) hpc (by omega)]
      exact h.free p hp hpc
    taken := by
      intro p hp hpc
      have hpc' : p < s.claimed.length := hpc
      simp only [State.atProducer, State.withCell]
      obtain rfl | hne := eq_or_ne p pos
      · obtain hq | ⟨-, hseq⟩ := hq
        · exact .inl ⟨i, by rwa [Function.update_self]⟩
        · exact .inr (by rwa [Function.update_self])
      · rw [hcell p hp (by omega) hne]
        have hother : (s.producers i).holds ≠ some p := by
          rw [hheld]
          exact fun heq => hne (Option.some.inj heq).symm
        exact (h.taken p hp hpc).imp (held_after hother) id
    stored := by
      intro p x hp hx hseq
      simp only [State.atProducer, State.withCell] at hx hseq ⊢
      obtain rfl | hne := eq_or_ne p pos
      · rw [Function.update_self] at hseq ⊢
        exact hstored x hx hseq
      · have hpc := (List.getElem?_eq_some_iff.mp hx).1
        rw [hcell p (h.moved.trans hp) (by omega) hne] at hseq ⊢
        exact h.stored p x hp hx hseq
    producing := by
      apply (Function.forall_update_iff _ (fun _ x => Producing c r s.claimed (Function.update s.cells _ cell) x)).mpr
      refine ⟨hproducing, fun j hne => ?_⟩
      exact (h.producing j).update hroom hle (by omega) (fun hj => hne (h.alone j i pos hj hheld)) cell
    alone := fun j k p hj hk => h.alone j k p (hholds j p hj) (hholds k p hk) }

end Producers

section Consumer

def Ready (c r : ℕ) (s : State ι α) : Prop := r < s.claimed.length ∧ (s.cells (r % c)).sequence = r + 1

def Consuming (c r : ℕ) (s : State ι α) : Consumer → Prop
  | .idle => s.readPos = r ∧ s.popped.length = r
  | .loadSequence cell => s.readPos = r ∧ s.popped.length = r ∧ cell = r % c
  | .loadPos cell seq => s.readPos = r ∧ s.popped.length = r ∧ cell = r % c ∧ (seq = r + 1 → Ready c r s)
  | .move cell pos => s.readPos = r ∧ s.popped.length = r ∧ cell = r % c ∧ pos = r ∧ Ready c r s
  | .release cell pos => s.readPos = r ∧ s.popped.length = r + 1 ∧ cell = r % c ∧ pos = r ∧ Ready c r s
  | .advance pos => s.readPos + 1 = r ∧ s.popped.length = r ∧ pos = s.readPos

theorem Consuming.frame {t : State ι α} {x : Consumer} (h : Consuming c r s x) (hread : t.readPos = s.readPos)
    (hpopped : t.popped = s.popped) (hready : Ready c r s → Ready c r t) : Consuming c r t x := by
  cases x with
  | idle => simpa only [Consuming, hread, hpopped] using h
  | loadSequence => simpa only [Consuming, hread, hpopped] using h
  | loadPos cell seq =>
    obtain ⟨hr, hlength, hcell, hseq⟩ := h
    exact ⟨by rwa [hread], by rwa [hpopped], hcell, fun heq => hready (hseq heq)⟩
  | move cell pos =>
    obtain ⟨hr, hlength, hcell, hpos, hs⟩ := h
    exact ⟨by rwa [hread], by rwa [hpopped], hcell, hpos, hready hs⟩
  | release cell pos =>
    obtain ⟨hr, hlength, hcell, hpos, hs⟩ := h
    exact ⟨by rwa [hread], by rwa [hpopped], hcell, hpos, hready hs⟩
  | advance => simpa only [Consuming, hread, hpopped] using h

theorem Ring.atConsumer (h : Ring c r s) (pos : ℕ) (x : Consumer) :
    Ring c r { s with readPos := pos, consumer := x } := { h with }

theorem Ring.move (h : Ring c r s) (hpopped : s.popped.length = r) (hlt : r < s.claimed.length)
    (hseq : (s.cells (r % c)).sequence = r + 1) :
    Ring c r { s.withCell (r % c) { s.cells (r % c) with data := none } with
      consumer := .release (r % c) r
      popped := s.popped ++ [(s.cells (r % c)).data] } := by
  have hroom := h.room
  have hsequence : ∀ p, (Function.update s.cells (r % c) { s.cells (r % c) with data := none } (p % c)).sequence =
      (s.cells (p % c)).sequence := by
    intro p
    rw [Function.update_apply]
    split
    next heq => rw [heq]
    · rfl
  exact {
    written := h.written
    room := h.room
    counted := ⟨h.counted.1, fun p => (hsequence p).trans_lt (h.counted.2 p)⟩
    order := by
      have hdata := h.stored r (s.claimed[r]) hpopped.le (List.getElem?_eq_getElem hlt) hseq
      rw [hdata]
      obtain ⟨rest, hrest⟩ := h.order
      have hnext : rest[0]? = some (some s.claimed[r]) := by
        calc rest[0]? = (s.popped ++ rest)[r]? := by rw [← hpopped, List.getElem?_append_right (Nat.le_refl _), Nat.sub_self]
          _ = (s.claimed.map some)[r]? := by rw [hrest]
          _ = some (some s.claimed[r]) := by simp [hlt]
      obtain ⟨x, tail, rfl⟩ : ∃ x tail, rest = x :: tail := List.exists_cons_of_ne_nil (by rintro rfl; cases hnext)
      obtain rfl : x = some s.claimed[r] := by simpa using hnext
      exact ⟨tail, by simpa [State.withCell] using hrest⟩
    moved := by
      simp only [List.length_append]
      omega
    free := fun p hp hpc => (hsequence p).trans (h.free p hp hpc)
    taken := by
      intro p hp hpc
      exact (h.taken p hp hpc).imp id (hsequence p).trans
    stored := by
      intro p x hp hx hseq'
      simp only [List.length_append, List.length_singleton] at hp
      have hpc := (List.getElem?_eq_some_iff.mp hx).1
      simp only [State.withCell] at hx hpc hseq' ⊢
      have hne := mod_ne_of_window (c := c) (r := r) (p := p) (q := r) (by omega) (by omega) (Nat.le_refl r) (by omega)
        (by omega)
      rw [Function.update_of_ne hne] at hseq' ⊢
      exact h.stored p x (by omega) hx hseq'
    producing := fun j => (h.producing j).update hroom (Nat.le_refl r) (by omega) (h.not_held hseq j) _
    alone := h.alone }

theorem Ring.release (h : Ring c r s) (hpopped : s.popped.length = r + 1) (hlt : r < s.claimed.length)
    (hseq : (s.cells (r % c)).sequence = r + 1) (hcount : r + c < size) :
    Ring c (r + 1) { s.withCell (r % c) { s.cells (r % c) with sequence := r + c } with
      consumer := .advance r } := by
  have hroom := h.room
  have hcell : ∀ p, r < p → p < r + c →
      Function.update s.cells (r % c) { s.cells (r % c) with sequence := r + c } (p % c) = s.cells (p % c) :=
    fun p hp hpc => Function.update_of_ne (mod_ne_of_window hp.le hpc (Nat.le_refl r) (by omega) hp.ne') _ _
  exact {
    written := h.written
    room := by
      simp only [State.withCell]
      omega
    counted := by
      refine ⟨h.counted.1, fun p => ?_⟩
      simp only [State.withCell, Function.update_apply]
      split
      · exact hcount
      · exact h.counted.2 p
    order := h.order
    moved := hpopped.ge
    free := by
      intro p hp hpc
      simp only [State.withCell] at hp ⊢
      obtain rfl | hne := eq_or_ne p (r + c)
      · rw [Nat.add_mod_right, Function.update_self]
      · rw [hcell p (by omega) (by omega)]
        exact h.free p hp (by omega)
    taken := by
      intro p hp hpc
      simp only [State.withCell] at hpc ⊢
      rw [hcell p (by omega) (by omega)]
      exact h.taken p (by omega) hpc
    stored := by
      intro p x hp hx hseq'
      have hpc := (List.getElem?_eq_some_iff.mp hx).1
      simp only [State.withCell] at hp hx hpc hseq' ⊢
      rw [hcell p (by omega) (by omega)] at hseq' ⊢
      exact h.stored p x hp hx hseq'
    producing := by
      intro j
      have hnot := h.not_held hseq j
      exact ((h.producing j).update hroom (Nat.le_refl r) (by omega) hnot _).release hnot
    alone := h.alone }

end Consumer

structure Sound (c : ℕ) (s : State ι α) (r : ℕ) : Prop where
  ring : Ring c r s
  consuming : Consuming c r s s.consumer

end Invariant

section Steps

variable {ι α : Type} {k r : ℕ} {s t : State ι α} {h : Trace (Action ι α) Empty} {i : ι} {a : Action ι α}

theorem Sound.tryPop (hs : Sound (2 ^ k) s r) (hcount : Counting (2 ^ k) h s .consumer)
    (ht : tryPop (2 ^ k) s = some t) : ∃ r', Sound (2 ^ k) t r' := by
  have hconsuming := hs.consuming
  simp only [MpscQueue.tryPop] at ht
  simp only [Counting, counter] at hcount
  cases hpc : s.consumer with
  | idle => simp [hpc] at ht
  | loadSequence cell =>
    rw [hpc] at hconsuming
    obtain ⟨hread, hpopped, rfl⟩ := hconsuming
    simp only [hpc, Option.some.injEq] at ht
    subst ht
    refine ⟨r, hs.ring.atConsumer _ _, hread, hpopped, rfl, fun hseq => ⟨?_, hseq⟩⟩
    by_contra hge
    have hempty : s.claimed.length ≤ r := by simpa using hge
    have hlength := hs.ring.released_le
    have hfree := hs.ring.free r (by omega)
    have hroom : 0 < 2 ^ k := Nat.two_pow_pos k
    omega
  | loadPos cell seq =>
    rw [hpc] at hconsuming
    obtain ⟨hread, hpopped, rfl, hready⟩ := hconsuming
    simp only [hpc] at ht hcount
    rw [Nat.mod_eq_of_lt hcount] at ht
    split_ifs at ht with hseq <;> simp only [Option.some.injEq] at ht <;> subst ht
    · exact ⟨r, hs.ring.atConsumer _ _, hread, hpopped⟩
    · exact ⟨r, hs.ring.atConsumer _ _, hread, hpopped, rfl, hread, hready (by omega)⟩
  | move cell pos =>
    rw [hpc] at hconsuming
    obtain ⟨hread, hpopped, rfl, rfl, hlt, hseq⟩ := hconsuming
    simp only [hpc, Option.some.injEq] at ht
    subst ht
    refine ⟨pos, hs.ring.move hpopped hlt hseq, hread, ?_, rfl, rfl, hlt, ?_⟩
    · simp only [List.length_append, List.length_singleton]
      omega
    · simpa [State.withCell] using hseq
  | release cell pos =>
    rw [hpc] at hconsuming
    obtain ⟨hread, hpopped, rfl, rfl, hlt, hseq⟩ := hconsuming
    simp only [hpc, Option.some.injEq] at ht hcount
    subst ht
    rw [Nat.mod_eq_of_lt hcount]
    exact ⟨pos + 1, hs.ring.release hpopped hlt hseq hcount, congrArg (· + 1) hread, hpopped, hread.symm⟩
  | advance pos =>
    rw [hpc] at hconsuming
    obtain ⟨hread, hpopped, rfl⟩ := hconsuming
    simp only [hpc, Option.some.injEq] at ht hcount
    subst ht
    rw [Nat.mod_eq_of_lt hcount]
    exact ⟨r, hs.ring.atConsumer _ _, hread, hpopped⟩

variable [DecidableEq ι]

theorem Ring.ready_fill {c pos : ℕ} (h : Ring c r s) (hheld : (s.producers i).holds = some pos) (cell : Cell α)
    (q : Producer α) (hready : Ready c r s) : Ready c r ((s.withCell (pos % c) cell).atProducer i q) := by
  obtain ⟨hlt, hseq⟩ := hready
  have hroom := h.room
  obtain ⟨hle, hpos, -⟩ := (h.producing i).held hheld
  have hne : r ≠ pos := by
    rintro rfl
    exact h.not_held hseq i hheld
  refine ⟨hlt, ?_⟩
  simp only [State.atProducer, State.withCell]
  rw [Function.update_of_ne (mod_ne_of_window (Nat.le_refl r) (by omega) hle (by omega) hne)]
  exact hseq

theorem Sound.quiet {c : ℕ} {q : Producer α} (hs : Sound c s r) (hheld : (s.producers i).holds = none)
    (hq : q.holds = none) (hproducing : Producing c r s.claimed s.cells q) : Sound c (s.atProducer i q) r :=
  ⟨hs.ring.quiet hheld hq hproducing, hs.consuming.frame rfl rfl id⟩

theorem Sound.tryPush (hs : Sound (2 ^ k) s r) (hk : 1 ≤ k) {spurious : Bool}
    (hcount : Counting (2 ^ k) h s (.producer i spurious)) (ht : tryPush (2 ^ k) s i spurious = some t) :
    Sound (2 ^ k) t r := by
  have hproducing := hs.ring.producing i
  have hlength := hs.ring.counted.1
  simp only [MpscQueue.tryPush, mask_two_pow] at ht
  simp only [Counting, counter] at hcount
  cases hpc : s.producers i with
  | idle => simp [hpc] at ht
  | loadPos item =>
    simp only [hpc, Option.some.injEq] at ht
    subst ht
    exact hs.quiet (by rw [hpc]; rfl) rfl hs.ring.written.le
  | loadSequence item pos =>
    rw [hpc] at hproducing
    have hle : pos ≤ s.claimed.length := hproducing
    simp only [hpc] at ht
    split_ifs at ht with hzero <;> simp only [Option.some.injEq] at ht <;> subst ht
    · apply hs.quiet (by rw [hpc]; rfl) rfl
      have hseq := eq_of_bmod_sub (hs.ring.counted.2 pos) (by omega) hzero
      exact ⟨hle, hs.ring.lt_of_available hk hle hseq⟩
    · exact hs.quiet (by rw [hpc]; rfl) rfl trivial
    · exact hs.quiet (by rw [hpc]; rfl) rfl trivial
  | exchange item pos =>
    simp only [hpc] at ht hcount
    split_ifs at ht with hexchange <;> simp only [Option.some.injEq] at ht <;> subst ht
    · obtain ⟨rfl, -⟩ := hexchange
      rw [Nat.mod_eq_of_lt hcount]
      refine ⟨hs.ring.claim hpc hcount, hs.consuming.frame rfl rfl ?_⟩
      rintro ⟨hlt, hseq⟩
      exact ⟨by simp only [List.length_append]; omega, hseq⟩
    · exact hs.quiet (by rw [hpc]; rfl) rfl hs.ring.written.le
  | write item pos =>
    rw [hpc] at hproducing
    obtain ⟨hclaimed, hle, hseq⟩ := hproducing
    have hheld : (s.producers i).holds = some pos := by rw [hpc]; rfl
    simp only [hpc, Option.some.injEq] at ht
    subst ht
    refine ⟨hs.ring.fill hheld (hs.ring.counted.2 pos) ⟨hclaimed, hle, ?_⟩ (.inl rfl) ?_,
      hs.consuming.frame rfl rfl (hs.ring.ready_fill hheld _ _)⟩
    · rw [Function.update_self, hseq]
    · intro x hx
      rw [hclaimed] at hx
      simp [Option.some.inj hx]
  | publish item pos =>
    rw [hpc] at hproducing
    obtain ⟨hclaimed, hle, hcell⟩ := hproducing
    have hheld : (s.producers i).holds = some pos := by rw [hpc]; rfl
    simp only [hpc, Option.some.injEq] at ht hcount
    subst ht
    rw [Nat.mod_eq_of_lt hcount]
    refine ⟨hs.ring.fill hheld hcount trivial (.inr ⟨rfl, rfl⟩) ?_,
      hs.consuming.frame rfl rfl (hs.ring.ready_fill hheld _ _)⟩
    intro x hx _
    rw [hclaimed] at hx
    rw [hcell, ← Option.some.inj hx]

theorem Sound.act (hs : Sound (2 ^ k) s r) (hk : 1 ≤ k) (hcount : Counting (2 ^ k) h s a)
    (ht : act (2 ^ k) s a = some t) : ∃ r', Sound (2 ^ k) t r' := by
  cases a with
  | push i item =>
    cases hpc : s.producers i <;> simp only [MpscQueue.act, hpc, reduceCtorEq, Option.some.injEq] at ht
    subst ht
    exact ⟨r, hs.quiet (by rw [hpc]; rfl) rfl trivial⟩
  | producer i spurious => exact ⟨r, hs.tryPush hk hcount ht⟩
  | pop =>
    have hconsuming := hs.consuming
    cases hpc : s.consumer <;> simp only [MpscQueue.act, hpc, reduceCtorEq, Option.some.injEq] at ht
    subst ht
    rw [hpc] at hconsuming
    obtain ⟨hread, hpopped⟩ := hconsuming
    exact ⟨r, hs.ring.atConsumer _ _, hread, hpopped, by rw [mask_two_pow, hread]⟩
  | consumer => exact hs.tryPop hcount ht

end Steps

section Runs

variable {ι α : Type} {k r : ℕ} {s : State ι α} {h : Trace (Action ι α) Empty}

theorem sound_start (hk : k < 64) : Sound (2 ^ k) ({} : State ι α) 0 where
  ring := {
    written := rfl
    room := Nat.zero_le _
    counted := by
      refine ⟨Nat.two_pow_pos 64, fun p => ?_⟩
      calc p % 2 ^ k < 2 ^ k := Nat.mod_lt p (Nat.two_pow_pos k)
        _ < size := Nat.pow_lt_pow_right Nat.one_lt_two hk
    order := List.prefix_rfl
    moved := Nat.le_refl 0
    free := fun p _ hp => Nat.mod_eq_of_lt (by omega)
    taken := nofun
    stored := nofun
    producing := fun _ => trivial
    alone := nofun }
  consuming := ⟨rfl, rfl⟩

theorem Sound.correct (hs : Sound (2 ^ k) s r) : Correct (2 ^ k) s where
  order := hs.ring.order
  bounded := by
    have hroom := hs.ring.room
    have hmoved := hs.ring.moved
    omega
  kept pos item hle hitem := by
    have hlt := (List.getElem?_eq_some_iff.mp hitem).1
    simp only [Kept, mask_two_pow]
    obtain ⟨i, hi⟩ | hseq := hs.ring.taken pos (hs.ring.moved.trans hle) hlt
    · have hproducing := hs.ring.producing i
      cases hpc : s.producers i <;> rw [hpc] at hi hproducing <;>
        simp only [Producer.holds, Option.some.injEq, reduceCtorEq] at hi
      all_goals
        subst hi
        obtain ⟨hclaimed, -, hcell⟩ := hproducing
        rw [hitem, Option.some.injEq] at hclaimed
        subst hclaimed
      · exact .inl ⟨i, hpc⟩
      · exact .inr ⟨by rw [hcell], .inl ⟨i, hpc⟩⟩
    · exact .inr ⟨hs.ring.stored pos item hle hitem hseq, .inr hseq⟩

variable [DecidableEq ι]

theorem exists_sound (hk : 1 ≤ k) (hsize : k < 64) (hr : (machine (2 ^ k)).Reach (Counting (2 ^ k)) {} h s) :
    ∃ r, Sound (2 ^ k) s r := by
  apply hr.invariant (I := fun _ t => ∃ r, Sound (2 ^ k) t r) ⟨0, sound_start hsize⟩
  intro h t a u es ⟨r, hs⟩ hcount hstep
  obtain ⟨v, hact, heq⟩ := Option.map_eq_some_iff.mp hstep
  obtain ⟨rfl, -⟩ := Prod.mk.inj heq
  exact hs.act hk hcount hact

end Runs

section Alone

variable {ι α : Type} [DecidableEq ι] {c : ℕ} {s t : State ι α} {i : ι} {p q : Producer α}

def Reached (c : ℕ) (s : State ι α) : Prop := ∃ h, (machine c).Reach (Counting c) {} h s

theorem Reached.act {a : Action ι α} (hr : Reached c s) (hcount : counter c s a < size)
    (hact : act c s a = some t) : Reached c t := by
  obtain ⟨h, hr⟩ := hr
  have hstep : (machine c).step s a = some (t, []) := congrArg (Option.map (·, [])) hact
  exact ⟨_, hr.step hcount hstep⟩

theorem Reached.producer (hr : Reached c (s.atProducer i p)) (hcount : counter c (s.atProducer i p) (.producer i false) < size)
    (hact : tryPush c (s.atProducer i p) i false = some t) : Reached c t := hr.act hcount hact

theorem atProducer_idem : (s.atProducer i p).atProducer i q = s.atProducer i q := by
  simp [State.atProducer]

def pushed (c : ℕ) (s : State ι α) (i : ι) (item : α) : State ι α :=
  { s.withCell (mask c s.writePos) { sequence := s.writePos + 1, data := some item } with
    writePos := s.writePos + 1
    claimed := s.claimed ++ [item]
    producers := Function.update s.producers i .idle }

theorem Reached.push (hr : Reached c s) (i : ι) (item : α) (hidle : s.producers i = .idle)
    (hfree : (s.cells (mask c s.writePos)).sequence = s.writePos) (hcount : s.writePos + 1 < size) :
    Reached c (pushed c s i item) := by
  have hpos : 0 < size := by omega
  have hzero : diff s.writePos s.writePos = 0 := by simp [diff]
  have hmod := Nat.mod_eq_of_lt hcount
  have hload : Reached c (s.atProducer i (.loadPos item)) :=
    hr.act (a := .push i item) hpos (by simp only [MpscQueue.act, hidle])
  have hsequence : Reached c (s.atProducer i (.loadSequence item s.writePos)) := by
    apply hload.producer
    · simpa [counter, atProducer_self] using hpos
    · simp only [tryPush, atProducer_self, atProducer_idem]
      rfl
  have hexchange : Reached c (s.atProducer i (.exchange item s.writePos)) := by
    apply hsequence.producer
    · simpa [counter, atProducer_self] using hpos
    · simp only [tryPush, atProducer_self, atProducer_idem]
      simp [State.atProducer, hfree, hzero]
  have hwrite : Reached c ({ s with writePos := s.writePos + 1, claimed := s.claimed ++ [item] }.atProducer i
      (.write item s.writePos)) := by
    apply hexchange.producer
    · simpa [counter, atProducer_self] using hcount
    · simp only [tryPush, atProducer_self, atProducer_idem]
      simp [State.atProducer, hmod]
  have hpublish : Reached c (({ s with writePos := s.writePos + 1, claimed := s.claimed ++ [item] }.withCell
      (mask c s.writePos) { sequence := s.writePos, data := some item }).atProducer i (.publish item s.writePos)) := by
    apply hwrite.producer
    · simpa [counter, atProducer_self] using hpos
    · simp only [tryPush, atProducer_self]
      simp [State.atProducer, State.withCell, hfree]
  apply hpublish.producer
  · simpa [counter, atProducer_self] using hcount
  · simp only [tryPush, atProducer_self]
    simp [State.atProducer, State.withCell, pushed, hmod]

/-- A ring of one cell takes a second item while the first is still in it. -/
theorem Reached.second_push (i : ι) (first second : α) :
    Reached 1 (pushed 1 (pushed 1 {} i first) i second) := by
  have hstart : Reached 1 ({} : State ι α) := ⟨_, .refl⟩
  have hsize : 1 < size := Nat.one_lt_two_pow (by decide)
  have hfirst := hstart.push i first rfl (by simp [mask]) hsize
  apply hfirst.push i second
  · simp [pushed]
  · simp [pushed, mask, State.withCell]
  · simp [pushed, size]

end Alone

section Main

variable {ι α : Type} [DecidableEq ι]

theorem correct_iff_two_cells [Inhabited ι] [Inhabited α] (k : ℕ) (hk : k < 64) :
    (∀ h (s : State ι α), (machine (2 ^ k)).Reach (Counting (2 ^ k)) {} h s → Correct (2 ^ k) s) ↔ 1 ≤ k := by
  constructor
  · intro hcorrect
    by_contra hlt
    obtain rfl : k = 0 := by omega
    obtain ⟨h, hr⟩ := Reached.second_push (default : ι) (default : α) default
    have hbounded := (hcorrect h _ hr).bounded
    simp [pushed, State.withCell] at hbounded
  · intro hone h s hr
    obtain ⟨r, hs⟩ := exists_sound hone hk hr
    exact hs.correct

theorem correct_of_default_capacity :
    13 < 64 ∧ ((∀ h (s : State ℕ ℕ), (machine (2 ^ 13)).Reach (Counting (2 ^ 13)) {} h s → Correct (2 ^ 13) s) ↔ 1 ≤ 13) :=
  ⟨by decide, correct_iff_two_cells 13 (by decide)⟩

theorem not_correct_single_cell : ∃ h, ∃ s : State ℕ ℕ, (machine 1).Reach (Counting 1) {} h s ∧
    s.claimed = [5, 7] ∧ s.popped = [] ∧ (s.cells 0).data = some 7 ∧ ¬Correct 1 s := by
  obtain ⟨h, hr⟩ := Reached.second_push 0 5 7
  refine ⟨h, _, hr, rfl, rfl, rfl, fun hcorrect => ?_⟩
  have hbounded := hcorrect.bounded
  simp [pushed, State.withCell] at hbounded

end Main

end Klett.Sor.MpscQueue
