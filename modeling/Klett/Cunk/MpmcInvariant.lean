import Klett.Cunk.MpmcQueue
import Klett.Lib.Slots

namespace Klett.Cunk.MpmcQueue

open Klett.Lib RingIndex

section Invariant

variable {ι κ α : Type}

/-- How far a claimed position has come, and who has it. -/
inductive Status (ι κ : Type) where
  | writing (i : ι)
  | publishing (i : ι)
  | ready
  | moving (j : κ)
  | releasing (j : κ)
  | released

def Status.stage : Status ι κ → ℕ
  | .writing _ => 0
  | .publishing _ => 1
  | .ready => 2
  | .moving _ => 3
  | .releasing _ => 4
  | .released => 5

def Status.sequence (c p : ℕ) : Status ι κ → ℕ
  | .writing _ | .publishing _ => p
  | .ready | .moving _ | .releasing _ => p + 1
  | .released => p + c

/-- What the slot of a position shows. -/
structure SlotIs (c : ℕ) (claimed : List α) (p : ℕ) (slot : Slot α) (x : Status ι κ) : Prop where
  sequence : slot.sequence = x.sequence c p
  data : 1 ≤ x.stage → x.stage ≤ 3 → slot.data = claimed[p]?

def Holder (s : State ι κ α) (p : ℕ) : Status ι κ → Prop
  | .writing i => ∃ item, s.producers i = .write item p
  | .publishing i => ∃ item, s.producers i = .publish item p
  | .moving j => s.consumers j = .move p
  | .releasing j => ∃ result, s.consumers j = .release p result
  | _ => True

def Producing (c : ℕ) (status : ℕ → Status ι κ) (claimed : List α) (slots : ℕ → Slot α) (i : ι) : Producer α → Prop
  | .loadSequence _ pos => pos ≤ claimed.length
  | .exchange _ pos => pos ≤ claimed.length ∧ (pos = claimed.length → (slots (pos % c)).sequence = pos)
  | .write item pos => status pos = .writing i ∧ claimed[pos]? = some item
  | .publish item pos => status pos = .publishing i ∧ claimed[pos]? = some item
  | _ => True

def Consuming (c : ℕ) (status : ℕ → Status ι κ) (claimed : List α) (tail : ℕ) (slots : ℕ → Slot α) (j : κ) :
    Consumer α → Prop
  | .loadSequence pos => pos ≤ tail
  | .exchange pos => pos ≤ tail ∧ (pos = tail → pos < claimed.length ∧ (slots (pos % c)).sequence = pos + 1)
  | .move pos => status pos = .moving j ∧ pos < claimed.length
  | .release pos _ => status pos = .releasing j ∧ pos < claimed.length
  | _ => True

/-- The last `c` claimed positions, or all of them on the first lap, own the slots that were claimed. -/
structure Ring (c : ℕ) (status : ℕ → Status ι κ) (s : State ι κ α) : Prop where
  head : s.head = s.claimed.length
  taken : s.taken = List.range s.tail
  behind : s.tail ≤ s.claimed.length
  room : s.claimed.length ≤ s.tail + c
  counted : s.claimed.length < size ∧ ∀ p, (s.slots (p % c)).sequence < size
  fresh : ∀ p, s.claimed.length ≤ p → p < c → (s.slots (p % c)).sequence = p
  slot : ∀ p < s.claimed.length, s.claimed.length ≤ p + c → SlotIs c s.claimed p (s.slots (p % c)) (status p)
  passed : ∀ p < s.claimed.length, 3 ≤ (status p).stage ↔ p < s.tail
  old : ∀ p, p + c < s.claimed.length → status p = .released

structure Threads (c : ℕ) (status : ℕ → Status ι κ) (s : State ι κ α) : Prop where
  holder : ∀ p < s.claimed.length, Holder s p (status p)
  producing : ∀ i, Producing c status s.claimed s.slots i (s.producers i)
  consuming : ∀ j, Consuming c status s.claimed s.tail s.slots j (s.consumers j)

structure Recorded (status : ℕ → Status ι κ) (s : State ι κ α) : Prop where
  stored : ∀ p item, (p, item) ∈ s.written → s.claimed[p]? = some item ∧ 1 ≤ (status p).stage
  fifo : ∀ p data, (p, data) ∈ s.popped → p < s.claimed.length ∧ data = s.claimed[p]? ∧ 4 ≤ (status p).stage
  moved : ∀ p < s.claimed.length, 4 ≤ (status p).stage → p ∈ s.popped.map Prod.fst
  done : ∀ p < s.claimed.length, (status p).stage = 5 → p ∈ s.released
  writtenOnce : (s.written.map Prod.fst).Nodup
  readOnce : (s.popped.map Prod.fst).Nodup

structure Sound (c : ℕ) (status : ℕ → Status ι κ) (s : State ι κ α) : Prop where
  ring : Ring c status s
  threads : Threads c status s
  recorded : Recorded status s

end Invariant

section Window

variable {ι κ α : Type} {c : ℕ} {status : ℕ → Status ι κ} {s : State ι κ α} {x : Status ι κ} {p q : ℕ} {item : α}
  {claimed : List α} {slot : Slot α}

/-- A position that a thread has, between claiming it and the last store to its slot. -/
def Status.held (x : Status ι κ) : Prop := x.stage ≠ 2 ∧ x.stage ≠ 5

theorem SlotIs.append (h : SlotIs c claimed p slot x) (hp : p < claimed.length) :
    SlotIs c (claimed ++ [item]) p slot x where
  sequence := h.sequence
  data hlow hhigh := by rw [h.data hlow hhigh, List.getElem?_append_left hp]

/-- Only after the release does the slot of a position show the position one lap on. -/
theorem SlotIs.eq_released (h : SlotIs c claimed p slot x) (hc : 2 ≤ c) (hseq : slot.sequence = p + c) :
    x = .released := by
  have hx := h.sequence
  cases x with
  | released => rfl
  | writing | publishing | ready | moving | releasing =>
    simp only [Status.sequence] at hx
    omega

theorem SlotIs.eq_ready (h : SlotIs c claimed p slot x) (hseq : slot.sequence = p + 1) (hx : x.stage < 3) :
    x = .ready := by
  have hsequence := h.sequence
  cases x with
  | ready => rfl
  | writing | publishing =>
    simp only [Status.sequence] at hsequence
    omega
  | moving | releasing | released =>
    simp only [Status.stage] at hx
    omega

theorem Ring.window (h : Ring c status s) (hnot : status p ≠ .released) : s.claimed.length ≤ p + c := by
  by_contra hold
  exact hnot (h.old p (not_le.mp hold))

theorem Status.held.ne_released (h : x.held) : x ≠ .released := by
  rintro rfl
  exact h.2 rfl

theorem slot_ne {n : ℕ} (hp : p < n) (hpc : n ≤ p + c) (hq : q < n) (hqc : n ≤ q + c) (hne : p ≠ q) :
    p % c ≠ q % c :=
  mod_ne_of_window (r := n - c) (by omega) (by omega) (by omega) (by omega) hne

/-- The slot that a producer found free for the next position belongs to nobody. -/
theorem Ring.head_slot_ne (h : Ring c status s) (hc : 2 ≤ c) (hp : p < s.claimed.length) (hheld : (status p).held)
    (hseq : (s.slots (s.claimed.length % c)).sequence = s.claimed.length) : s.claimed.length % c ≠ p % c := by
  intro heq
  have hwindow := h.window hheld.ne_released
  have hp' : s.claimed.length = p + c := by
    by_contra hne
    exact mod_ne_of_window (r := p) (by omega) (by omega) (Nat.le_refl p) (by omega) (by omega) heq
  apply hheld.ne_released
  rw [heq] at hseq
  exact (h.slot p hp hwindow).eq_released hc (hseq.trans hp')

theorem Ring.tail_ready (h : Ring c status s) (htail : s.tail < s.claimed.length)
    (hseq : (s.slots (s.tail % c)).sequence = s.tail + 1) : status s.tail = .ready := by
  have hnot := (h.passed s.tail htail).not.mpr (Nat.lt_irrefl _)
  exact (h.slot s.tail htail h.room).eq_ready hseq (not_le.mp hnot)

theorem Ring.tail_slot_ne (h : Ring c status s) (hp : p < s.claimed.length) (hheld : (status p).held)
    (htail : s.tail < s.claimed.length) (hseq : (s.slots (s.tail % c)).sequence = s.tail + 1) :
    s.tail % c ≠ p % c := by
  have hready := h.tail_ready htail hseq
  apply slot_ne htail h.room hp (h.window hheld.ne_released)
  rintro rfl
  exact hheld.1 (by rw [hready]; rfl)

theorem withSlot_self {k : ℕ} : (s.withSlot k slot).slots k = slot := Function.update_self ..

theorem withSlot_of_ne {k l : ℕ} (h : l ≠ k) : (s.withSlot k slot).slots l = s.slots l := Function.update_of_ne h ..

theorem Ring.advance (h : Ring c status s) (hp : p < s.claimed.length) (hheld : (status p).held)
    (hslot : SlotIs c s.claimed p slot x) (hsize : slot.sequence < size)
    (hstage : 3 ≤ x.stage ↔ 3 ≤ (status p).stage) :
    Ring c (Function.update status p x) (s.withSlot (p % c) slot) := by
  have hwindow := h.window hheld.ne_released
  exact { h with
    counted := by
      refine ⟨h.counted.1, fun q => ?_⟩
      obtain heq | hne := eq_or_ne (q % c) (p % c)
      · rw [heq, withSlot_self]
        exact hsize
      · rw [withSlot_of_ne hne]
        exact h.counted.2 q
    fresh := by
      intro q hq hqc
      have hq' : s.claimed.length ≤ q := hq
      have hne : q % c ≠ p % c := by
        rw [Nat.mod_eq_of_lt hqc, Nat.mod_eq_of_lt (by omega)]
        omega
      rw [withSlot_of_ne hne]
      exact h.fresh q hq hqc
    slot := by
      intro q hq hqc
      obtain rfl | hne := eq_or_ne q p
      · rw [withSlot_self, Function.update_self]
        exact hslot
      · rw [withSlot_of_ne (slot_ne hq hqc hp hwindow hne), Function.update_of_ne hne]
        exact h.slot q hq hqc
    passed := by
      intro q hq
      obtain rfl | hne := eq_or_ne q p
      · rw [Function.update_self, hstage]
        exact h.passed q hq
      · rw [Function.update_of_ne hne]
        exact h.passed q hq
    old := by
      intro q hq
      have hq' : q + c < s.claimed.length := hq
      rw [Function.update_of_ne (by omega)]
      exact h.old q hq }

end Window

section Held

variable {ι κ α : Type} {c : ℕ} {status : ℕ → Status ι κ} {s : State ι κ α}
  {x : Status ι κ} {i : ι} {j : κ} {p pos tail tail' : ℕ} {item : α} {claimed : List α} {slots slots' : ℕ → Slot α}

/-- The position that a producer has between its operations on the slot. -/
def Producer.holds : Producer α → Option ℕ
  | .write _ pos | .publish _ pos => some pos
  | _ => none

def Consumer.holds : Consumer α → Option ℕ
  | .move pos | .release pos _ => some pos
  | _ => none

def Status.producer : Status ι κ → Option ι
  | .writing i | .publishing i => some i
  | _ => none

def Status.consumer : Status ι κ → Option κ
  | .moving j | .releasing j => some j
  | _ => none

theorem Status.held_of_producer (h : x.producer = some i) : x.held := by
  cases x <;> simp_all [Status.producer, Status.held, Status.stage]

theorem Status.held_of_consumer (h : x.consumer = some j) : x.held := by
  cases x <;> simp_all [Status.consumer, Status.held, Status.stage]

theorem Status.consumer_of_producer (h : x.producer = some i) : x.consumer = none := by
  cases x <;> simp_all [Status.producer, Status.consumer]

theorem Producing.owner {q : Producer α} (h : Producing c status claimed slots i q) (hq : q.holds = some p) :
    (status p).producer = some i ∧ p < claimed.length := by
  cases q <;> simp only [Producer.holds, Option.some.injEq, reduceCtorEq] at hq
  all_goals
    subst hq
    rw [h.1]
    exact ⟨rfl, (List.getElem?_eq_some_iff.mp h.2).1⟩

theorem Consuming.owner {q : Consumer α} (h : Consuming c status claimed tail slots j q) (hq : q.holds = some p) :
    (status p).consumer = some j ∧ p < claimed.length := by
  cases q <;> simp only [Consumer.holds, Option.some.injEq, reduceCtorEq] at hq
  all_goals
    subst hq
    rw [h.1]
    exact ⟨rfl, h.2⟩

theorem Holder.atProducer [DecidableEq ι] {q : Producer α} (h : Holder s p x) (hold : (s.producers i).holds ≠ some p) :
    Holder (s.atProducer i q) p x := by
  have hne {k : ι} (hk : (s.producers k).holds = some p) : k ≠ i := by
    rintro rfl
    exact hold hk
  cases x with
  | writing k =>
    obtain ⟨item, hk⟩ := h
    exact ⟨item, (Function.update_of_ne (hne (by rw [hk]; rfl)) _ _).trans hk⟩
  | publishing k =>
    obtain ⟨item, hk⟩ := h
    exact ⟨item, (Function.update_of_ne (hne (by rw [hk]; rfl)) _ _).trans hk⟩
  | ready | moving | releasing | released => exact h

theorem Holder.atConsumer [DecidableEq κ] {q : Consumer α} (h : Holder s p x)
    (hold : (s.consumers j).holds ≠ some p) : Holder (s.atConsumer j q) p x := by
  have hne {k : κ} (hk : (s.consumers k).holds = some p) : k ≠ j := by
    rintro rfl
    exact hold hk
  cases x with
  | moving k =>
    exact (Function.update_of_ne (hne (by rw [show s.consumers k = .move p from h]; rfl)) _ _).trans h
  | releasing k =>
    obtain ⟨result, hk⟩ := h
    exact ⟨result, (Function.update_of_ne (hne (by rw [hk]; rfl)) _ _).trans hk⟩
  | ready | writing | publishing | released => exact h

theorem Producing.frame {status' : ℕ → Status ι κ} {q : Producer α} (h : Producing c status claimed slots i q)
    (hstatus : ∀ pos, q.holds = some pos → status' pos = status pos)
    (hslots : (slots (claimed.length % c)).sequence = claimed.length →
      (slots' (claimed.length % c)).sequence = claimed.length) : Producing c status' claimed slots' i q := by
  cases q with
  | idle | loadHead | loadSequence => exact h
  | exchange item pos =>
    refine ⟨h.1, fun hpos => ?_⟩
    subst hpos
    exact hslots (h.2 rfl)
  | write item pos | publish item pos => exact ⟨(hstatus pos rfl).trans h.1, h.2⟩

theorem Producing.append {q : Producer α} (h : Producing c status claimed slots i q) :
    Producing c status (claimed ++ [item]) slots i q := by
  have hlength : (claimed ++ [item]).length = claimed.length + 1 := by simp
  cases q with
  | idle | loadHead => trivial
  | loadSequence item pos => exact Nat.le_trans h (by rw [hlength]; exact Nat.le_succ _)
  | exchange item pos =>
    have hle := h.1
    exact ⟨by omega, fun hpos => by omega⟩
  | write item pos | publish item pos =>
    have hlt := (List.getElem?_eq_some_iff.mp h.2).1
    exact ⟨h.1, by rw [List.getElem?_append_left hlt]; exact h.2⟩

theorem Consuming.frame {status' : ℕ → Status ι κ} {claimed' : List α} {q : Consumer α}
    (h : Consuming c status claimed tail slots j q) (hstatus : ∀ pos, q.holds = some pos → status' pos = status pos)
    (hclaimed : claimed.length ≤ claimed'.length)
    (hslots : (slots (tail % c)).sequence = tail + 1 → tail < claimed.length →
      (slots' (tail % c)).sequence = tail + 1) : Consuming c status' claimed' tail slots' j q := by
  cases q with
  | idle | loadTail | loadSequence => exact h
  | exchange pos =>
    refine ⟨h.1, fun hpos => ?_⟩
    obtain ⟨hlt, hseq⟩ := h.2 hpos
    subst hpos
    exact ⟨hlt.trans_le hclaimed, hslots hseq hlt⟩
  | move pos | release pos result => exact ⟨(hstatus pos rfl).trans h.1, h.2.trans_le hclaimed⟩

theorem Consuming.take {q : Consumer α} (h : Consuming c status claimed tail slots j q) :
    Consuming c status claimed (tail + 1) slots j q := by
  cases q with
  | idle | loadTail => trivial
  | loadSequence pos => exact Nat.le_succ_of_le h
  | exchange pos =>
    have hle := h.1
    exact ⟨by omega, fun hpos => by omega⟩
  | move pos | release pos result => exact h

/-- A store to the slot of a position goes unseen by those who do not have the position. -/
theorem Producing.store {q : Producer α} {slot : Slot α} (h : Producing c status s.claimed s.slots i q)
    (hring : Ring c status s) (hc : 2 ≤ c) (hp : p < s.claimed.length) (hheld : (status p).held)
    (hne : q.holds ≠ some p) :
    Producing c (Function.update status p x) s.claimed (s.withSlot (p % c) slot).slots i q := by
  apply h.frame
  · intro pos hpos
    apply Function.update_of_ne
    rintro rfl
    exact hne hpos
  · intro hseq
    rw [withSlot_of_ne (hring.head_slot_ne hc hp hheld hseq), hseq]

theorem Consuming.store {q : Consumer α} {slot : Slot α} (h : Consuming c status s.claimed s.tail s.slots j q)
    (hring : Ring c status s) (hp : p < s.claimed.length) (hheld : (status p).held) (hne : q.holds ≠ some p) :
    Consuming c (Function.update status p x) s.claimed s.tail (s.withSlot (p % c) slot).slots j q := by
  apply h.frame
  · intro pos hpos
    apply Function.update_of_ne
    rintro rfl
    exact hne hpos
  · exact Nat.le_refl _
  · intro hseq htail
    rw [withSlot_of_ne (hring.tail_slot_ne hp hheld htail hseq), hseq]

end Held

section Threads

variable {ι κ α : Type} {c : ℕ} {status : ℕ → Status ι κ} {s : State ι κ α} {x : Status ι κ} {i : ι} {j : κ} {p : ℕ}
  {item : α} {d : Slot α} {a : Producer α} {b : Consumer α}

theorem Threads.quietProducer [DecidableEq ι] (h : Threads c status s) (hold : (s.producers i).holds = none)
    (ha : Producing c status s.claimed s.slots i a) : Threads c status (s.atProducer i a) where
  holder p hp := (h.holder p hp).atProducer (by rw [hold]; nofun)
  producing := by
    apply (Function.forall_update_iff _ (fun k q => Producing c status s.claimed s.slots k q)).mpr
    exact ⟨ha, fun k _ => h.producing k⟩
  consuming := h.consuming

theorem Threads.quietConsumer [DecidableEq κ] (h : Threads c status s) (hold : (s.consumers j).holds = none)
    (hb : Consuming c status s.claimed s.tail s.slots j b) : Threads c status (s.atConsumer j b) where
  holder p hp := (h.holder p hp).atConsumer (by rw [hold]; nofun)
  producing := h.producing
  consuming := by
    apply (Function.forall_update_iff _ (fun k q => Consuming c status s.claimed s.tail s.slots k q)).mpr
    exact ⟨hb, fun k _ => h.consuming k⟩

theorem Threads.producer_alone (h : Threads c status s) (hheld : (s.producers i).holds = some p) {k : ι} (hk : k ≠ i) :
    (s.producers k).holds ≠ some p := by
  intro hother
  have hi := ((h.producing i).owner hheld).1
  have hj := ((h.producing k).owner hother).1
  exact hk (Option.some_injective _ (hj.symm.trans hi))

theorem Threads.consumer_alone (h : Threads c status s) (hheld : (s.consumers j).holds = some p) {k : κ} (hk : k ≠ j) :
    (s.consumers k).holds ≠ some p := by
  intro hother
  have hi := ((h.consuming j).owner hheld).1
  have hj := ((h.consuming k).owner hother).1
  exact hk (Option.some_injective _ (hj.symm.trans hi))

theorem Threads.apart (h : Threads c status s) (hi : (s.producers i).holds = some p) :
    (s.consumers j).holds ≠ some p := by
  intro hj
  have hnone := Status.consumer_of_producer ((h.producing i).owner hi).1
  rw [((h.consuming j).owner hj).1] at hnone
  cases hnone

theorem Threads.producerStore [DecidableEq ι] (h : Threads c status s) (hring : Ring c status s) (hc : 2 ≤ c)
    (hheld : (s.producers i).holds = some p) (hholder : Holder (s.atProducer i a) p x)
    (ha : Producing c (Function.update status p x) s.claimed (s.withSlot (p % c) d).slots i a) :
    Threads c (Function.update status p x) ((s.withSlot (p % c) d).atProducer i a) := by
  obtain ⟨howner, hp⟩ := (h.producing i).owner hheld
  have hstatus := Status.held_of_producer howner
  constructor
  case holder =>
    intro q hq
    obtain rfl | hne := eq_or_ne q p
    · rw [Function.update_self]
      exact hholder
    · rw [Function.update_of_ne hne]
      have hother : (s.producers i).holds ≠ some q := by
        rw [hheld]
        exact fun heq => hne (Option.some_injective _ heq).symm
      exact (h.holder q hq).atProducer hother
  case producing =>
    apply (Function.forall_update_iff _ (fun k q => Producing c _ s.claimed _ k q)).mpr
    exact ⟨ha, fun k hk => (h.producing k).store hring hc hp hstatus (h.producer_alone hheld hk)⟩
  case consuming => exact fun k => (h.consuming k).store hring hp hstatus (h.apart hheld)

theorem Threads.consumerStore [DecidableEq κ] (h : Threads c status s) (hring : Ring c status s) (hc : 2 ≤ c)
    (hheld : (s.consumers j).holds = some p) (hholder : Holder (s.atConsumer j b) p x)
    (hb : Consuming c (Function.update status p x) s.claimed s.tail (s.withSlot (p % c) d).slots j b) :
    Threads c (Function.update status p x) ((s.withSlot (p % c) d).atConsumer j b) := by
  obtain ⟨howner, hp⟩ := (h.consuming j).owner hheld
  have hstatus := Status.held_of_consumer howner
  constructor
  case holder =>
    intro q hq
    obtain rfl | hne := eq_or_ne q p
    · rw [Function.update_self]
      exact hholder
    · rw [Function.update_of_ne hne]
      have hother : (s.consumers j).holds ≠ some q := by
        rw [hheld]
        exact fun heq => hne (Option.some_injective _ heq).symm
      exact (h.holder q hq).atConsumer hother
  case producing => exact fun k => (h.producing k).store hring hc hp hstatus fun hk => h.apart hk hheld
  case consuming =>
    apply (Function.forall_update_iff _ (fun k q => Consuming c _ s.claimed s.tail _ k q)).mpr
    exact ⟨hb, fun k hk => (h.consuming k).store hring hp hstatus (h.consumer_alone hheld hk)⟩

end Threads

end Klett.Cunk.MpmcQueue
