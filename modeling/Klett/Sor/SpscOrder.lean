import Klett.Lib.Slots
import Klett.Sor.SpscQueue

namespace Klett.Sor.SpscQueue

open Klett.Lib RingIndex

section Indices

variable {c : Capacity}

theorem exists_two_pow (c : Capacity) : ∃ k < 64, c.value = 2 ^ k := by
  have hne : c.value ≠ 0 := c.positive.ne'
  obtain ⟨k, hk⟩ := (Nat.and_sub_one_eq_zero_iff_isPowerOfTwo hne).mp c.powerOfTwo
  refine ⟨k, ?_, hk⟩
  have hfits := c.fits
  rw [hk] at hfits
  exact (Nat.pow_lt_pow_iff_right Nat.one_lt_two).mp hfits

theorem and_mask (c : Capacity) (x : ℕ) : x &&& c.mask = x % c.value := by
  obtain ⟨k, -, hk⟩ := exists_two_pow c
  rw [Capacity.mask, hk]
  exact Nat.and_two_pow_sub_one_eq_mod x k

theorem value_dvd_wordSize (c : Capacity) : c.value ∣ wordSize := by
  obtain ⟨k, hk, hvalue⟩ := exists_two_pow c
  rw [hvalue]
  exact Nat.pow_dvd_pow 2 hk.le

theorem next_eq {i : ℕ} (hi : i < c.value) : next c i = (i + 1) % c.value := by
  have hlt : i + 1 < wordSize := Nat.lt_of_le_of_lt hi c.fits
  rw [next, and_mask, Nat.mod_eq_of_lt hlt]

end Indices

section Invariant

variable (c : Capacity) {α : Type}

/-- What the producer has read of its own index stays true, and what it has read of the other one stays safe. -/
def Producing (tail : ℕ) (buffer : ℕ → α) (length : ℕ) : Producer α → Prop
  | .idle | .loadTail _ => True
  | .loadHead _ t next => t = tail ∧ next = (tail + 1) % c.value
  | .write _ t next => t = tail ∧ next = (tail + 1) % c.value ∧ length < c.capacity
  | .storeTail item next => next = (tail + 1) % c.value ∧ length < c.capacity ∧ buffer tail = item

def Consuming (head : ℕ) (items : List α) : Consumer α → Prop
  | .idle | .loadHead => True
  | .loadTail h => h = head
  | .move h => h = head ∧ items ≠ []
  | .storeHead h item => h = head ∧ items.head? = some item

def Stored (s : State α) (items : List α) : Prop :=
  ∀ i item, items[i]? = some item → s.inHand = none ∨ 0 < i → s.buffer ((s.head + i) % c.value) = item

structure Sound (s : State α) (q : Fifo α c.capacity) : Prop where
  inside : s.head < c.value
  tail : s.tail = (s.head + q.items.length) % c.value
  producing : Producing c s.tail s.buffer q.items.length s.producer
  consuming : Consuming s.head q.items s.consumer
  stored : Stored c s q.items

variable {c} {s t : State α} {q : Fifo α c.capacity} {es : List (Fifo.Outcome α)} {item : α} {p : Producer α}
  {x : Consumer α}

theorem Sound.length_lt (_ : Sound c s q) : q.items.length < c.value := by
  have hbounded : q.items.length ≤ c.value - 1 := q.bounded
  have hpositive := c.positive
  omega

theorem Sound.tail_lt (hs : Sound c s q) : s.tail < c.value := by
  rw [hs.tail]
  exact Nat.mod_lt _ c.positive

theorem Sound.full_iff (hs : Sound c s q) : (s.tail + 1) % c.value = s.head ↔ c.capacity ≤ q.items.length := by
  have hlength := hs.length_lt
  have hcapacity : c.capacity = c.value - 1 := rfl
  rw [hs.tail, Nat.mod_add_mod, Nat.add_assoc, add_mod_eq_iff hs.inside hlength]
  omega

theorem Sound.empty_iff (hs : Sound c s q) : s.head = s.tail ↔ q.items = [] := by
  have hlength := hs.length_lt
  rw [hs.tail, eq_comm, add_mod_eq_iff hs.inside hlength.le, ← List.length_eq_zero_iff]
  omega

/-- The slot at the tail is none of those that hold an item. -/
theorem Sound.ne_tail (hs : Sound c s q) {i : ℕ} (hi : i < q.items.length) : (s.head + i) % c.value ≠ s.tail := by
  have hlength := hs.length_lt
  rw [hs.tail]
  apply mod_ne_of_window (r := s.head) <;> omega

theorem Sound.ne_head (hs : Sound c s q) {i : ℕ} (hpos : 0 < i) (hi : i < q.items.length) :
    (s.head + i) % c.value ≠ s.head := by
  have hlength := hs.length_lt
  intro heq
  have := (add_mod_eq_iff hs.inside (by omega)).mp heq
  omega

theorem Sound.atProducer (hs : Sound c s q) (hp : Producing c s.tail s.buffer q.items.length p) :
    Sound c { s with producer := p } q := { hs with producing := hp }

theorem Sound.atConsumer (hs : Sound c s q) (hx : Consuming s.head q.items x)
    (hhand : ({ s with consumer := x } : State α).inHand = s.inHand) : Sound c { s with consumer := x } q where
  inside := hs.inside
  tail := hs.tail
  producing := hs.producing
  consuming := hx
  stored := by
    intro i item hi hout
    rw [hhand] at hout
    exact hs.stored i item hi hout

theorem Sound.write (hs : Sound c s q) (hroom : q.items.length < c.capacity) :
    Sound c { s with
      buffer := Function.update s.buffer s.tail item
      producer := .storeTail item ((s.tail + 1) % c.value) } q where
  inside := hs.inside
  tail := hs.tail
  producing := ⟨rfl, hroom, Function.update_self ..⟩
  consuming := hs.consuming
  stored := by
    intro i y hi hout
    have hlt := (List.getElem?_eq_some_iff.mp hi).1
    simp only [Function.update_of_ne (hs.ne_tail hlt)]
    exact hs.stored i y hi hout

theorem Sound.push {r : Fifo α c.capacity} (hs : Sound c s q) (hpush : q.tryPush item = some r)
    (hwritten : s.buffer s.tail = item) :
    Sound c { s with tail := (s.tail + 1) % c.value, producer := .idle } r where
  inside := hs.inside
  tail := by
    rw [Fifo.tryPush_items hpush, List.length_append, List.length_singleton, hs.tail, Nat.mod_add_mod]
    rfl
  producing := trivial
  consuming := by
    rw [Fifo.tryPush_items hpush]
    have hconsuming := hs.consuming
    cases hpc : s.consumer <;> rw [hpc] at hconsuming
    case idle | loadHead => trivial
    case loadTail => exact hconsuming
    case move => exact ⟨hconsuming.1, by simp⟩
    case storeHead => exact ⟨hconsuming.1, by simp [hconsuming.2]⟩
  stored := by
    intro i y hi hout
    rw [Fifo.tryPush_items hpush] at hi
    obtain hlt | hge := Nat.lt_or_ge i q.items.length
    · rw [List.getElem?_append_left hlt] at hi
      exact hs.stored i y hi hout
    · have hlast := (List.getElem?_eq_some_iff.mp hi).1
      rw [List.length_append, List.length_singleton] at hlast
      obtain rfl : i = q.items.length := by omega
      rw [List.getElem?_concat_length] at hi
      rw [← Option.some.inj hi, ← hwritten, hs.tail]

theorem Sound.move (hs : Sound c s q) (hhand : s.inHand = none) (hne : q.items ≠ []) (residue : α) :
    Sound c { s with
      buffer := Function.update s.buffer s.head residue
      consumer := .storeHead s.head (s.buffer s.head) } q where
  inside := hs.inside
  tail := hs.tail
  producing := by
    have hproducing := hs.producing
    have hother : s.tail ≠ s.head := fun heq => hne (hs.empty_iff.mp heq.symm)
    cases hpc : s.producer <;> rw [hpc] at hproducing
    case idle | loadTail => trivial
    case loadHead => exact hproducing
    case write => exact hproducing
    case storeTail =>
      obtain ⟨hnext, hroom, hwritten⟩ := hproducing
      exact ⟨hnext, hroom, (Function.update_of_ne hother _ _).trans hwritten⟩
  consuming := by
    obtain ⟨first, rest, hitems⟩ := List.exists_cons_of_ne_nil hne
    have hfirst := hs.stored 0 first (by rw [hitems]; rfl) (.inl hhand)
    rw [Nat.add_zero, Nat.mod_eq_of_lt hs.inside] at hfirst
    exact ⟨rfl, by rw [hitems, hfirst]; rfl⟩
  stored := by
    intro i y hi hout
    have hpos : 0 < i := hout.resolve_left (by simp [State.inHand])
    have hlt := (List.getElem?_eq_some_iff.mp hi).1
    simp only [Function.update_of_ne (hs.ne_head hpos hlt)]
    exact hs.stored i y hi (.inr hpos)

theorem Sound.pop {r : Fifo α c.capacity} (hs : Sound c s q) (hpop : q.tryPop = some (item, r)) :
    Sound c { s with head := (s.head + 1) % c.value, consumer := .idle } r where
  inside := Nat.mod_lt _ c.positive
  tail := by
    rw [Nat.mod_add_mod, hs.tail, Fifo.tryPop_items hpop, List.length_cons, Nat.add_assoc, Nat.add_comm 1]
  producing := by
    have hproducing := hs.producing
    rw [Fifo.tryPop_items hpop, List.length_cons] at hproducing
    cases hpc : s.producer <;> rw [hpc] at hproducing
    case idle | loadTail => trivial
    case loadHead => exact hproducing
    case write =>
      obtain ⟨ht, hnext, hroom⟩ := hproducing
      exact ⟨ht, hnext, Nat.lt_of_succ_lt hroom⟩
    case storeTail =>
      obtain ⟨hnext, hroom, hwritten⟩ := hproducing
      exact ⟨hnext, Nat.lt_of_succ_lt hroom, hwritten⟩
  consuming := trivial
  stored := by
    intro i y hi _
    have hnext : q.items[i + 1]? = some y := by rw [Fifo.tryPop_items hpop, List.getElem?_cons_succ, hi]
    have hstored := hs.stored (i + 1) y hnext (.inr i.succ_pos)
    rwa [← Nat.add_assoc, Nat.add_right_comm, ← Nat.mod_add_mod] at hstored

end Invariant

section Steps

variable {c : Capacity} {α : Type} {s t : State α} {q : Fifo α c.capacity} {es : List (Fifo.Outcome α)}

def Follows (c : Capacity) (q : Fifo α c.capacity) (t : State α) (es : List (Fifo.Outcome α)) : Prop :=
  es = [] ∧ Sound c t q ∨ ∃ a r, (Fifo.machine α c.capacity).step q a = some (r, es) ∧ Sound c t r

theorem Sound.tryPush (hs : Sound c s q) (ht : tryPush c s = some (t, es)) : Follows c q t es := by
  have hproducing := hs.producing
  unfold SpscQueue.tryPush at ht
  cases hpc : s.producer with
  | idle => simp [hpc] at ht
  | loadTail item =>
    simp only [hpc, Option.some.injEq, Prod.mk.injEq] at ht
    obtain ⟨rfl, rfl⟩ := ht
    exact .inl ⟨rfl, hs.atProducer ⟨rfl, next_eq hs.tail_lt⟩⟩
  | loadHead item t next =>
    rw [hpc] at hproducing
    obtain ⟨rfl, rfl⟩ := hproducing
    simp only [hpc] at ht
    split_ifs at ht with hfull <;> simp only [Option.some.injEq, Prod.mk.injEq] at ht <;> obtain ⟨rfl, rfl⟩ := ht
    · exact .inr ⟨.push item, q, Fifo.machine_full (hs.full_iff.mp hfull), hs.atProducer trivial⟩
    · have hroom : q.items.length < c.capacity := Nat.lt_of_not_le fun h => hfull (hs.full_iff.mpr h)
      exact .inl ⟨rfl, hs.atProducer ⟨rfl, rfl, hroom⟩⟩
  | write item t next =>
    rw [hpc] at hproducing
    obtain ⟨rfl, rfl, hroom⟩ := hproducing
    simp only [hpc, Option.some.injEq, Prod.mk.injEq] at ht
    obtain ⟨rfl, rfl⟩ := ht
    exact .inl ⟨rfl, hs.write hroom⟩
  | storeTail item next =>
    rw [hpc] at hproducing
    obtain ⟨rfl, hroom, hwritten⟩ := hproducing
    simp only [hpc, Option.some.injEq, Prod.mk.injEq] at ht
    obtain ⟨rfl, rfl⟩ := ht
    obtain ⟨r, hpush⟩ : ∃ r, q.tryPush item = some r := by
      apply Option.ne_none_iff_exists'.mp
      intro hnone
      exact absurd (Fifo.tryPush_eq_none.mp hnone) (Nat.not_le_of_lt hroom)
    exact .inr ⟨.push item, r, Fifo.machine_pushed hpush, hs.push hpush hwritten⟩

theorem Sound.tryPop {residue : α} (hs : Sound c s q) (ht : tryPop c s residue = some (t, es)) :
    Follows c q t es := by
  have hconsuming := hs.consuming
  unfold SpscQueue.tryPop at ht
  cases hpc : s.consumer with
  | idle => simp [hpc] at ht
  | loadHead =>
    simp only [hpc, Option.some.injEq, Prod.mk.injEq] at ht
    obtain ⟨rfl, rfl⟩ := ht
    exact .inl ⟨rfl, hs.atConsumer rfl (by simp only [State.inHand, hpc])⟩
  | loadTail h =>
    rw [hpc] at hconsuming
    obtain rfl : h = s.head := hconsuming
    simp only [hpc] at ht
    split_ifs at ht with hempty <;> simp only [Option.some.injEq, Prod.mk.injEq] at ht <;> obtain ⟨rfl, rfl⟩ := ht
    · refine .inr ⟨.pop, q, Fifo.machine_empty (hs.empty_iff.mp hempty), ?_⟩
      exact hs.atConsumer trivial (by simp only [State.inHand, hpc])
    · have hne : q.items ≠ [] := fun h => hempty (hs.empty_iff.mpr h)
      exact .inl ⟨rfl, hs.atConsumer ⟨rfl, hne⟩ (by simp only [State.inHand, hpc])⟩
  | move h =>
    rw [hpc] at hconsuming
    obtain ⟨rfl, hne⟩ := hconsuming
    simp only [hpc, Option.some.injEq, Prod.mk.injEq] at ht
    obtain ⟨rfl, rfl⟩ := ht
    exact .inl ⟨rfl, hs.move (by simp only [State.inHand, hpc]) hne residue⟩
  | storeHead h item =>
    rw [hpc] at hconsuming
    obtain ⟨rfl, hfirst⟩ := hconsuming
    simp only [hpc, Option.some.injEq, Prod.mk.injEq] at ht
    obtain ⟨rfl, rfl⟩ := ht
    obtain ⟨r, hpop⟩ : ∃ r, q.tryPop = some (item, r) := by
      obtain ⟨items, hbounded⟩ := q
      cases items with
      | nil => cases hfirst
      | cons first rest =>
        obtain rfl := Option.some.inj hfirst
        exact ⟨_, rfl⟩
    rw [next_eq hs.inside]
    exact .inr ⟨.pop, r, Fifo.machine_popped hpop, hs.pop hpop⟩

theorem Sound.step {a : Action α} (hs : Sound c s q) (ht : (machine c α).step s a = some (t, es)) :
    Follows c q t es := by
  cases a with
  | push item =>
    cases hpc : s.producer <;> simp only [machine, hpc, reduceCtorEq, Option.some.injEq, Prod.mk.injEq] at ht
    obtain ⟨rfl, rfl⟩ := ht
    exact .inl ⟨rfl, hs.atProducer trivial⟩
  | producer => exact hs.tryPush ht
  | pop =>
    cases hpc : s.consumer <;> simp only [machine, hpc, reduceCtorEq, Option.some.injEq, Prod.mk.injEq] at ht
    obtain ⟨rfl, rfl⟩ := ht
    exact .inl ⟨rfl, hs.atConsumer trivial (by simp only [State.inHand, hpc])⟩
  | consumer residue => exact hs.tryPop ht

end Steps

section Main

variable {c : Capacity} {α : Type} {s : State α} {q : Fifo α c.capacity}

theorem sound_start (buffer : ℕ → α) : Sound c { buffer := buffer } .empty where
  inside := c.positive
  tail := (Nat.zero_mod c.value).symm
  producing := trivial
  consuming := trivial
  stored := by
    intro i item hi
    simp at hi

theorem Sound.holds (hs : Sound c s q) : Holds c s q where
  size := by
    have hpos : 0 < wordSize := Nat.two_pow_pos 64
    rw [State.size, and_mask, hs.tail]
    exact distance_mod hs.inside hs.length_lt (value_dvd_wordSize c) hpos
  empty := by
    rw [State.empty, beq_iff_eq]
    exact hs.empty_iff
  inHand := by
    intro item hitem
    have hconsuming := hs.consuming
    unfold State.inHand at hitem
    split at hitem
    next h first hpc =>
      rw [hpc, Option.some.inj hitem] at hconsuming
      exact hconsuming.2
    · cases hitem
  stored := by
    intro i item hi hout
    rw [and_mask]
    exact hs.stored i item hi hout

/-- Every interleaving of the two sides is a run of the bounded queue. -/
theorem refines_fifo (c : Capacity) (buffer : ℕ → α) (h : Trace (Action α) (Fifo.Outcome α)) (s : State α)
    (hr : (machine c α).Run { buffer := buffer } h s) :
    ∃ k q, (Fifo.machine α c.capacity).Run .empty k q ∧ k.events = h.events ∧ Holds c s q ∧
      q.Accounts (h.events.filterMap Fifo.Outcome.entered) (h.events.filterMap Fifo.Outcome.left) := by
  obtain ⟨k, q, hrun, hevents, hs⟩ :=
    hr.simulates (R := Sound c) (sound_start buffer) fun t a u es q hs ht => hs.step ht
  refine ⟨k, q, hrun, hevents, hs.holds, ?_⟩
  rw [← hevents]
  exact Fifo.accounts_of_run hrun

theorem refines_fifo_two_slots : ∃ h, ∃ s : State ℕ, (machine ⟨2, by decide, by decide, by decide⟩ ℕ).Run
      { buffer := fun _ => 0 } h s ∧ h.events = [.pushed 5, .full 7, .popped 5, .empty] ∧
    ∃ k q, (Fifo.machine ℕ 1).Run .empty k q ∧ k.events = h.events ∧ q.items = [] := by
  let c : Capacity := ⟨2, by decide, by decide, by decide⟩
  obtain ⟨h, s, hr, hevents⟩ := Machine.exists_run (machine c ℕ) { buffer := fun _ => 0 }
    (fun h _ => h.events = [.pushed 5, .full 7, .popped 5, .empty])
    [.push 5, .producer, .producer, .producer, .producer, .push 7, .pop, .producer, .consumer 0, .producer, .consumer 0,
      .consumer 0, .consumer 0, .pop, .consumer 0, .consumer 0] (by decide)
  obtain ⟨k, q, hrun, hk, -, haccounts⟩ := refines_fifo c (fun _ => 0) h s hr
  refine ⟨h, s, hr, hevents, k, q, hrun, hk, ?_⟩
  rw [hevents] at haccounts
  simpa [Fifo.Accounts, List.filterMap_cons, Fifo.Outcome.entered, Fifo.Outcome.left] using haccounts

end Main

end Klett.Sor.SpscQueue
