import Klett.Cunk.MpmcInvariant
import Mathlib.Data.Nat.Log

namespace Klett.Cunk.MpmcQueue

open Klett.Lib RingIndex

section Records

variable {ι κ α : Type} {status : ℕ → Status ι κ} {s : State ι κ α} {x : Status ι κ} {p : ℕ} {item : α}
  {data : Option α} {i : ι}

theorem stage_le_update (h : (status p).stage ≤ x.stage) (q : ℕ) :
    (status q).stage ≤ (Function.update status p x q).stage := by
  obtain rfl | hne := eq_or_ne q p
  · rwa [Function.update_self]
  · rw [Function.update_of_ne hne]

theorem ne_of_stage_update {n : ℕ} (hx : x.stage < n) (h : n ≤ (Function.update status p x q).stage) : q ≠ p := by
  rintro rfl
  rw [Function.update_self] at h
  omega

theorem Recorded.advance (h : Recorded status s) (hle : (status p).stage ≤ x.stage) (hx : x.stage ≤ 3) :
    Recorded (Function.update status p x) s where
  stored q item hq := (h.stored q item hq).imp id fun hstage => hstage.trans (stage_le_update hle q)
  fifo q data hq := (h.fifo q data hq).imp id (And.imp id fun hstage => hstage.trans (stage_le_update hle q))
  moved := by
    intro q hq hstage
    have hne : q ≠ p := ne_of_stage_update (by omega) hstage
    rw [Function.update_of_ne hne] at hstage
    exact h.moved q hq hstage
  done := by
    intro q hq hstage
    have hne : q ≠ p := ne_of_stage_update (by omega) hstage.ge
    rw [Function.update_of_ne hne] at hstage
    exact h.done q hq hstage
  writtenOnce := h.writtenOnce
  readOnce := h.readOnce

theorem Recorded.claim (h : Recorded status s) :
    Recorded (Function.update status s.claimed.length (.writing i)) { s with claimed := s.claimed ++ [item] } where
  stored := by
    intro q value hq
    obtain ⟨hvalue, hstage⟩ := h.stored q value hq
    have hlt := (List.getElem?_eq_some_iff.mp hvalue).1
    rw [Function.update_of_ne hlt.ne, List.getElem?_append_left hlt]
    exact ⟨hvalue, hstage⟩
  fifo := by
    intro q value hq
    obtain ⟨hlt, hvalue, hstage⟩ := h.fifo q value hq
    rw [Function.update_of_ne hlt.ne, List.getElem?_append_left hlt, List.length_append]
    exact ⟨Nat.lt_add_right _ hlt, hvalue, hstage⟩
  moved := by
    intro q hq hstage
    have hne : q ≠ s.claimed.length := ne_of_stage_update (Nat.zero_lt_succ 3) hstage
    rw [Function.update_of_ne hne] at hstage
    rw [List.length_append, List.length_singleton] at hq
    exact h.moved q (by omega) hstage
  done := by
    intro q hq hstage
    have hne : q ≠ s.claimed.length := ne_of_stage_update (Nat.zero_lt_succ 4) hstage.ge
    rw [Function.update_of_ne hne] at hstage
    rw [List.length_append, List.length_singleton] at hq
    exact h.done q (by omega) hstage
  writtenOnce := h.writtenOnce
  readOnce := h.readOnce

theorem Recorded.write (h : Recorded status s) (hp : status p = .writing i) (hitem : s.claimed[p]? = some item) :
    Recorded (Function.update status p (.publishing i)) { s with written := s.written ++ [(p, item)] } := by
  have hnot : p ∉ s.written.map Prod.fst := by
    intro hmem
    obtain ⟨⟨q, value⟩, hentry, rfl⟩ := List.mem_map.mp hmem
    have hstage := (h.stored q value hentry).2
    rw [hp] at hstage
    cases hstage
  have hle : (status p).stage ≤ (Status.publishing i : Status ι κ).stage := by
    rw [hp]
    exact Nat.zero_le _
  have hnext := h.advance hle (Nat.le_add_left 1 2)
  exact { hnext with
    stored := by
      intro q value hq
      obtain hq | hq := List.mem_append.mp hq
      · exact hnext.stored q value hq
      · obtain ⟨rfl, rfl⟩ := Prod.mk.inj (List.mem_singleton.mp hq)
        rw [Function.update_self]
        exact ⟨hitem, Nat.le_refl _⟩
    writtenOnce := by
      rw [List.map_append, List.map_singleton, ← List.concat_eq_append]
      exact h.writtenOnce.concat hnot }

theorem Recorded.move (h : Recorded status s) {j : κ} (hp : status p = .moving j) (hlt : p < s.claimed.length)
    (hdata : data = s.claimed[p]?) :
    Recorded (Function.update status p (.releasing j)) { s with popped := s.popped ++ [(p, data)] } := by
  have hnot : p ∉ s.popped.map Prod.fst := by
    intro hmem
    obtain ⟨⟨q, value⟩, hentry, rfl⟩ := List.mem_map.mp hmem
    have hstage := (h.fifo q value hentry).2.2
    rw [hp] at hstage
    exact absurd hstage (Nat.lt_irrefl 3)
  have hle : (status p).stage ≤ (Status.releasing j : Status ι κ).stage := by
    rw [hp]
    exact Nat.le_succ _
  constructor
  case stored => exact fun q item hq => (h.stored q item hq).imp id fun hstage => hstage.trans (stage_le_update hle q)
  case fifo =>
    intro q value hq
    obtain hq | hq := List.mem_append.mp hq
    · exact (h.fifo q value hq).imp id (And.imp id fun hstage => hstage.trans (stage_le_update hle q))
    · obtain ⟨rfl, rfl⟩ := Prod.mk.inj (List.mem_singleton.mp hq)
      rw [Function.update_self]
      exact ⟨hlt, hdata, Nat.le_refl _⟩
  case moved =>
    intro q hq hstage
    rw [List.map_append, List.mem_append]
    obtain rfl | hne := eq_or_ne q p
    · exact .inr (by simp)
    · rw [Function.update_of_ne hne] at hstage
      exact .inl (h.moved q hq hstage)
  case done =>
    intro q hq hstage
    have hne : q ≠ p := ne_of_stage_update (Nat.lt_succ_self 4) hstage.ge
    rw [Function.update_of_ne hne] at hstage
    exact h.done q hq hstage
  case writtenOnce => exact h.writtenOnce
  case readOnce =>
    rw [List.map_append, List.map_singleton, ← List.concat_eq_append]
    exact h.readOnce.concat hnot

theorem Recorded.release (h : Recorded status s) {j : κ} (hp : status p = .releasing j) :
    Recorded (Function.update status p .released) { s with released := s.released ++ [p] } := by
  have hle : (status p).stage ≤ (Status.released : Status ι κ).stage := by
    rw [hp]
    exact Nat.le_succ _
  constructor
  case stored => exact fun q item hq => (h.stored q item hq).imp id fun hstage => hstage.trans (stage_le_update hle q)
  case fifo =>
    exact fun q data hq => (h.fifo q data hq).imp id (And.imp id fun hstage => hstage.trans (stage_le_update hle q))
  case moved =>
    intro q hq hstage
    apply h.moved q hq
    obtain rfl | hne := eq_or_ne q p
    · rw [hp]
      exact Nat.le_refl _
    · rwa [Function.update_of_ne hne] at hstage
  case done =>
    intro q hq hstage
    rw [List.mem_append, List.mem_singleton]
    obtain rfl | hne := eq_or_ne q p
    · exact .inr rfl
    · rw [Function.update_of_ne hne] at hstage
      exact .inl (h.done q hq hstage)
  case writtenOnce => exact h.writtenOnce
  case readOnce => exact h.readOnce

end Records

section Claims

variable {ι κ α : Type} {c : ℕ} {status : ℕ → Status ι κ} {s : State ι κ α} {p : ℕ} {item : α} {i : ι} {j : κ}

/-- The slot of the next position is free only when there is room for the position. -/
theorem Ring.lt_room (h : Ring c status s) (hc : 2 ≤ c)
    (hseq : (s.slots (s.claimed.length % c)).sequence = s.claimed.length) : s.claimed.length < s.tail + c := by
  have hroom := h.room
  by_contra hfull
  have hlength : s.claimed.length = s.tail + c := by omega
  have htail : s.tail < s.claimed.length := by omega
  have hslot := h.slot s.tail htail (by omega)
  rw [hlength, Nat.add_mod_right] at hseq
  have hstage := (h.passed s.tail htail).not.mpr (Nat.lt_irrefl _)
  rw [hslot.eq_released hc hseq] at hstage
  exact hstage (Nat.le_add_right 3 2)

theorem Ring.claim (h : Ring c status s) (hc : 2 ≤ c) (hcount : s.claimed.length + 1 < size)
    (hseq : (s.slots (s.claimed.length % c)).sequence = s.claimed.length) :
    Ring c (Function.update status s.claimed.length (.writing i)) { s with
      head := s.claimed.length + 1
      claimed := s.claimed ++ [item] } := by
  have hlength : (s.claimed ++ [item]).length = s.claimed.length + 1 := by simp
  have hroom := h.lt_room hc hseq
  have hbehind := h.behind
  constructor
  case head => exact hlength.symm
  case taken => exact h.taken
  case behind =>
    rw [hlength]
    exact Nat.le_succ_of_le hbehind
  case room =>
    rw [hlength]
    exact hroom
  case counted =>
    rw [hlength]
    exact ⟨hcount, h.counted.2⟩
  case fresh =>
    intro p hp hpc
    rw [hlength] at hp
    exact h.fresh p (by omega) hpc
  case slot =>
    intro p hp hpc
    rw [hlength] at hp hpc
    obtain rfl | hne := eq_or_ne p s.claimed.length
    · rw [Function.update_self]
      exact ⟨hseq, by simp [Status.stage]⟩
    · rw [Function.update_of_ne hne]
      exact (h.slot p (by omega) (by omega)).append (by omega)
  case passed =>
    intro p hp
    rw [hlength] at hp
    obtain rfl | hne := eq_or_ne p s.claimed.length
    · rw [Function.update_self]
      exact ⟨fun hstage => absurd hstage (Nat.not_succ_le_zero 2), fun hlt => absurd hbehind (not_le.mpr hlt)⟩
    · rw [Function.update_of_ne hne]
      exact h.passed p (by omega)
  case old =>
    intro p hp
    rw [hlength] at hp
    rw [Function.update_of_ne (by omega)]
    by_cases hlast : p + c = s.claimed.length
    · have hslot := h.slot p (by omega) (by omega)
      rw [← hlast, Nat.add_mod_right] at hseq
      exact hslot.eq_released hc hseq
    · exact h.old p (by omega)

theorem Ring.take (h : Ring c status s) (htail : s.tail < s.claimed.length)
    (hseq : (s.slots (s.tail % c)).sequence = s.tail + 1) :
    Ring c (Function.update status s.tail (.moving j)) { s with
      tail := s.tail + 1
      taken := s.taken ++ [s.tail] } := by
  have hready := h.tail_ready htail hseq
  have hroom := h.room
  constructor
  case head => exact h.head
  case taken => rw [List.range_succ, h.taken]
  case behind => exact htail
  case room => exact hroom.trans (Nat.add_le_add_right (Nat.le_succ _) c)
  case counted => exact h.counted
  case fresh => exact h.fresh
  case slot =>
    intro p hp hpc
    obtain rfl | hne := eq_or_ne p s.tail
    · have hslot := h.slot s.tail hp hpc
      rw [hready] at hslot
      rw [Function.update_self]
      exact ⟨hslot.sequence, fun _ _ => hslot.data (Nat.le_succ 1) (Nat.le_succ 2)⟩
    · rw [Function.update_of_ne hne]
      exact h.slot p hp hpc
  case passed =>
    intro p hp
    obtain rfl | hne := eq_or_ne p s.tail
    · rw [Function.update_self]
      exact ⟨fun _ => Nat.lt_succ_self _, fun _ => Nat.le_refl 3⟩
    · rw [Function.update_of_ne hne, h.passed p hp]
      exact ⟨fun hlt => Nat.lt_succ_of_lt hlt, fun hle => Nat.lt_of_le_of_ne (Nat.lt_succ_iff.mp hle) hne⟩
  case old =>
    intro p hp
    have hp' : p + c < s.claimed.length := hp
    rw [Function.update_of_ne (by omega)]
    exact h.old p hp

theorem Threads.claim [DecidableEq ι] (h : Threads c status s)
    (hpc : s.producers i = .exchange item s.claimed.length) :
    Threads c (Function.update status s.claimed.length (.writing i))
      { s.atProducer i (.write item s.claimed.length) with
        head := s.claimed.length + 1
        claimed := s.claimed ++ [item] } := by
  have hlength : (s.claimed ++ [item]).length = s.claimed.length + 1 := by simp
  constructor
  case holder =>
    intro p hp
    obtain rfl | hne := eq_or_ne p s.claimed.length
    · rw [Function.update_self]
      exact ⟨item, Function.update_self ..⟩
    · rw [Function.update_of_ne hne]
      have hlt : p < (s.claimed ++ [item]).length := hp
      exact (h.holder p (by omega)).atProducer (by rw [hpc]; nofun)
  case producing =>
    apply (Function.forall_update_iff _ (fun k q => Producing c _ (s.claimed ++ [item]) s.slots k q)).mpr
    refine ⟨⟨Function.update_self .., List.getElem?_concat_length ..⟩, fun k _ => ?_⟩
    apply (h.producing k).append.frame
    · intro pos hpos
      exact Function.update_of_ne ((h.producing k).owner hpos).2.ne _ _
    · exact id
  case consuming =>
    intro k
    apply (h.consuming k).frame
    · intro pos hpos
      exact Function.update_of_ne ((h.consuming k).owner hpos).2.ne _ _
    · exact (Nat.le_succ _).trans hlength.ge
    · exact fun hseq _ => hseq

theorem Threads.take [DecidableEq κ] (h : Threads c status s) (hpc : s.consumers j = .exchange s.tail)
    (hready : status s.tail = .ready) (htail : s.tail < s.claimed.length) :
    Threads c (Function.update status s.tail (.moving j))
      { s.atConsumer j (.move s.tail) with
        tail := s.tail + 1
        taken := s.taken ++ [s.tail] } := by
  constructor
  case holder =>
    intro p hp
    obtain rfl | hne := eq_or_ne p s.tail
    · rw [Function.update_self]
      exact Function.update_self ..
    · rw [Function.update_of_ne hne]
      exact (h.holder p hp).atConsumer (by rw [hpc]; nofun)
  case producing =>
    intro k
    apply (h.producing k).frame
    · intro pos hpos
      apply Function.update_of_ne
      rintro rfl
      have howner := ((h.producing k).owner hpos).1
      rw [hready] at howner
      cases howner
    · exact id
  case consuming =>
    apply (Function.forall_update_iff _ (fun k q => Consuming c _ s.claimed (s.tail + 1) s.slots k q)).mpr
    refine ⟨⟨Function.update_self .., htail⟩, fun k _ => ?_⟩
    apply (h.consuming k).take.frame
    · intro pos hpos
      apply Function.update_of_ne
      rintro rfl
      have howner := ((h.consuming k).owner hpos).1
      rw [hready] at howner
      cases howner
    · exact Nat.le_refl _
    · exact fun hseq _ => hseq

end Claims

section Producers

variable {ι κ α : Type} [DecidableEq ι] {c : ℕ} {status : ℕ → Status ι κ} {s : State ι κ α} {p : ℕ} {item : α} {i : ι}
  {a : Producer α}

theorem Sound.quietProducer (h : Sound c status s) (hold : (s.producers i).holds = none)
    (ha : Producing c status s.claimed s.slots i a) : Sound c status (s.atProducer i a) :=
  ⟨{ h.ring with }, h.threads.quietProducer hold ha, { h.recorded with }⟩

theorem Sound.claim (h : Sound c status s) (hc : 2 ≤ c) (hpc : s.producers i = .exchange item s.head)
    (hcount : s.head + 1 < size) :
    Sound c (Function.update status s.head (.writing i)) { s.atProducer i (.write item s.head) with
      head := s.head + 1
      claimed := s.claimed ++ [item] } := by
  rw [h.ring.head] at hpc hcount ⊢
  have hproducing := h.threads.producing i
  rw [hpc] at hproducing
  exact ⟨{ h.ring.claim hc hcount (hproducing.2 rfl) with }, h.threads.claim hpc, { h.recorded.claim with }⟩

theorem Sound.write (h : Sound c status s) (hc : 2 ≤ c) (hpc : s.producers i = .write item p) :
    Sound c (Function.update status p (.publishing i))
      { (s.withSlot (p % c) { s.slots (p % c) with data := some item }).atProducer i (.publish item p) with
        written := s.written ++ [(p, item)] } := by
  have hproducing := h.threads.producing i
  rw [hpc] at hproducing
  obtain ⟨hstatus, hitem⟩ := hproducing
  have hholds : (s.producers i).holds = some p := by rw [hpc]; rfl
  obtain ⟨howner, hp⟩ := (h.threads.producing i).owner hholds
  have hheld := Status.held_of_producer howner
  have hslot := h.ring.slot p hp (h.ring.window hheld.ne_released)
  rw [hstatus] at hslot
  have hnext : SlotIs c s.claimed p { s.slots (p % c) with data := some item } (Status.publishing i : Status ι κ) :=
    ⟨hslot.sequence, fun _ _ => hitem.symm⟩
  have hring := h.ring.advance hp hheld hnext (h.ring.counted.2 p) (by rw [hstatus]; simp [Status.stage])
  have hthreads := h.threads.producerStore h.ring hc hholds (x := .publishing i) (a := .publish item p)
    (d := { s.slots (p % c) with data := some item }) ⟨item, Function.update_self ..⟩
    ⟨Function.update_self .., hitem⟩
  exact ⟨{ hring with }, { hthreads with }, { h.recorded.write hstatus hitem with }⟩

theorem Sound.publish (h : Sound c status s) (hc : 2 ≤ c) (hpc : s.producers i = .publish item p) :
    p + 1 < size ∧ Sound c (Function.update status p .ready)
      ((s.withSlot (p % c) { s.slots (p % c) with sequence := p + 1 }).atProducer i .idle) := by
  have hproducing := h.threads.producing i
  rw [hpc] at hproducing
  have hstatus := hproducing.1
  have hholds : (s.producers i).holds = some p := by rw [hpc]; rfl
  obtain ⟨howner, hp⟩ := (h.threads.producing i).owner hholds
  have hheld := Status.held_of_producer howner
  have hslot := h.ring.slot p hp (h.ring.window hheld.ne_released)
  rw [hstatus] at hslot
  have hcount : p + 1 < size := lt_of_le_of_lt hp h.ring.counted.1
  have hnext : SlotIs c s.claimed p { s.slots (p % c) with sequence := p + 1 } (Status.ready : Status ι κ) :=
    ⟨rfl, fun _ _ => hslot.data (Nat.le_refl 1) (Nat.le_add_left 1 2)⟩
  have hring := h.ring.advance hp hheld hnext hcount (by rw [hstatus]; simp [Status.stage])
  have hthreads := h.threads.producerStore h.ring hc hholds (x := .ready) (a := .idle)
    (d := { s.slots (p % c) with sequence := p + 1 }) trivial trivial
  have hrecorded : Recorded (Function.update status p .ready) s := by
    apply h.recorded.advance
    · rw [hstatus]
      exact Nat.le_succ 1
    · exact Nat.le_succ 2
  exact ⟨hcount, { hring with }, { hthreads with }, { hrecorded with }⟩

end Producers

section Consumers

variable {ι κ α : Type} [DecidableEq κ] {c : ℕ} {status : ℕ → Status ι κ} {s : State ι κ α} {p : ℕ} {j : κ}
  {b : Consumer α} {result : Option α}

theorem Sound.quietConsumer (h : Sound c status s) (hold : (s.consumers j).holds = none)
    (hb : Consuming c status s.claimed s.tail s.slots j b) : Sound c status (s.atConsumer j b) :=
  ⟨{ h.ring with }, h.threads.quietConsumer hold hb, { h.recorded with }⟩

theorem Sound.take (h : Sound c status s) (hpc : s.consumers j = .exchange s.tail) :
    Sound c (Function.update status s.tail (.moving j)) { s.atConsumer j (.move s.tail) with
      tail := s.tail + 1
      taken := s.taken ++ [s.tail] } := by
  have hconsuming := h.threads.consuming j
  rw [hpc] at hconsuming
  obtain ⟨htail, hseq⟩ := hconsuming.2 rfl
  have hready := h.ring.tail_ready htail hseq
  have hrecorded : Recorded (Function.update status s.tail (.moving j)) s := by
    apply h.recorded.advance
    · rw [hready]
      exact Nat.le_succ 2
    · exact Nat.le_refl 3
  exact ⟨{ h.ring.take htail hseq with }, h.threads.take hpc hready htail, { hrecorded with }⟩

theorem Sound.move (h : Sound c status s) (hc : 2 ≤ c) (hpc : s.consumers j = .move p) :
    Sound c (Function.update status p (.releasing j))
      { (s.withSlot (p % c) { s.slots (p % c) with data := none }).atConsumer j (.release p (s.slots (p % c)).data) with
        popped := s.popped ++ [(p, (s.slots (p % c)).data)] } := by
  have hconsuming := h.threads.consuming j
  rw [hpc] at hconsuming
  have hstatus := hconsuming.1
  have hholds : (s.consumers j).holds = some p := by rw [hpc]; rfl
  obtain ⟨howner, hp⟩ := (h.threads.consuming j).owner hholds
  have hheld := Status.held_of_consumer howner
  have hslot := h.ring.slot p hp (h.ring.window hheld.ne_released)
  rw [hstatus] at hslot
  have hnext : SlotIs c s.claimed p { s.slots (p % c) with data := none } (Status.releasing j : Status ι κ) :=
    ⟨hslot.sequence, fun _ hle => absurd hle (Nat.not_succ_le_self 3)⟩
  have hring := h.ring.advance hp hheld hnext (h.ring.counted.2 p) (by rw [hstatus]; simp [Status.stage])
  have hthreads := h.threads.consumerStore h.ring hc hholds (x := .releasing j)
    (b := .release p (s.slots (p % c)).data) (d := { s.slots (p % c) with data := none })
    ⟨_, Function.update_self ..⟩ ⟨Function.update_self .., hp⟩
  have hdata := hslot.data (Nat.le_add_left 1 2) (Nat.le_refl 3)
  exact ⟨{ hring with }, { hthreads with }, { h.recorded.move hstatus hp hdata with }⟩

theorem Sound.release (h : Sound c status s) (hc : 2 ≤ c) (hpc : s.consumers j = .release p result)
    (hcount : p + c < size) :
    Sound c (Function.update status p .released)
      { (s.withSlot (p % c) { s.slots (p % c) with sequence := p + c }).atConsumer j .idle with
        released := s.released ++ [p] } := by
  have hconsuming := h.threads.consuming j
  rw [hpc] at hconsuming
  have hstatus := hconsuming.1
  have hholds : (s.consumers j).holds = some p := by rw [hpc]; rfl
  obtain ⟨howner, hp⟩ := (h.threads.consuming j).owner hholds
  have hheld := Status.held_of_consumer howner
  have hnext : SlotIs c s.claimed p { s.slots (p % c) with sequence := p + c } (Status.released : Status ι κ) :=
    ⟨rfl, fun _ hle => absurd hle (by simp [Status.stage])⟩
  have hring := h.ring.advance hp hheld hnext hcount (by rw [hstatus]; simp [Status.stage])
  have hthreads := h.threads.consumerStore h.ring hc hholds (x := .released) (b := .idle)
    (d := { s.slots (p % c) with sequence := p + c }) trivial trivial
  exact ⟨{ hring with }, { hthreads with }, { h.recorded.release hstatus with }⟩

end Consumers

section Runs

variable {ι κ α : Type} [DecidableEq ι] [DecidableEq κ] {k : ℕ} {status : ℕ → Status ι κ} {s t : State ι κ α}
  {i : ι} {j : κ} {pos slotSize : ℕ} {spurious : Bool}

theorem mask_two_pow (hk : k < 64) : mask (2 ^ k) = 2 ^ k - 1 := by
  have hpos := Nat.two_pow_pos k
  have hlt : 2 ^ k < size := Nat.pow_lt_pow_right (Nat.lt_succ_self 1) hk
  have hsum : 2 ^ k + (size - 1) = 2 ^ k - 1 + size := by omega
  rw [mask, hsum, Nat.add_mod_right, Nat.mod_eq_of_lt (by omega)]

theorem index_two_pow (hk : k < 64) : index (2 ^ k) pos = pos % 2 ^ k := by
  rw [index, mask_two_pow hk, Nat.and_two_pow_sub_one_eq_mod]

omit [DecidableEq ι] [DecidableEq κ] in
theorem Ring.lt_of_filled {c : ℕ} (h : Ring c status s) (hc : 2 ≤ c) (hpos : pos ≤ s.claimed.length)
    (hseq : (s.slots (pos % c)).sequence = pos + 1) : pos < s.claimed.length := by
  by_contra hnot
  obtain rfl : pos = s.claimed.length := by omega
  obtain hlt | hge := Nat.lt_or_ge s.claimed.length c
  · have := h.fresh s.claimed.length (Nat.le_refl _) hlt
    omega
  · obtain ⟨p, hp⟩ := Nat.exists_eq_add_of_le' hge
    have hslot := (h.slot p (by omega) (by omega)).sequence
    rw [hp, Nat.add_mod_right, hslot] at hseq
    cases hx : status p <;> rw [hx] at hseq <;> simp only [Status.sequence] at hseq <;> omega

omit [DecidableEq κ] in
theorem Sound.tryPush (h : Sound (2 ^ k) status s) (hk : 1 ≤ k) (hsize : k < 64)
    (hcount : counter (2 ^ k) s (.producer i spurious : Action ι κ α) < size)
    (hs : tryPush (2 ^ k) s i spurious = some t) : ∃ status', Sound (2 ^ k) status' t := by
  have hc : 2 ≤ 2 ^ k := Nat.le_pow hk
  have hproducing := h.threads.producing i
  have hreload (item : α) : Producing (2 ^ k) status s.claimed s.slots i (.loadSequence item s.head) := h.ring.head.le
  cases hpc : s.producers i with
  | idle => simp [MpmcQueue.tryPush, hpc] at hs
  | loadHead item =>
    simp only [MpmcQueue.tryPush, hpc, Option.some.injEq] at hs
    subst hs
    exact ⟨status, h.quietProducer (by rw [hpc]; rfl) (hreload item)⟩
  | loadSequence item pos =>
    rw [hpc] at hproducing
    simp only [MpmcQueue.tryPush, hpc, index_two_pow hsize] at hs
    split_ifs at hs with hzero hneg
    · cases hs
      have hpos : pos < size := lt_of_le_of_lt hproducing h.ring.counted.1
      have hseq := eq_of_bmod_sub (h.ring.counted.2 pos) hpos hzero
      exact ⟨status, h.quietProducer (by rw [hpc]; rfl) ⟨hproducing, fun _ => hseq⟩⟩
    · cases hs
      exact ⟨status, h.quietProducer (by rw [hpc]; rfl) trivial⟩
    · cases hs
      exact ⟨status, h.quietProducer (by rw [hpc]; rfl) trivial⟩
  | exchange item pos =>
    simp only [counter, hpc] at hcount
    simp only [MpmcQueue.tryPush, hpc] at hs
    split_ifs at hs with hsame
    · cases hs
      obtain ⟨rfl, -⟩ := hsame
      rw [Nat.mod_eq_of_lt hcount]
      exact ⟨_, h.claim hc hpc hcount⟩
    · cases hs
      exact ⟨status, h.quietProducer (by rw [hpc]; rfl) (hreload item)⟩
  | write item pos =>
    simp only [MpmcQueue.tryPush, hpc, index_two_pow hsize, Option.some.injEq] at hs
    subst hs
    exact ⟨_, h.write hc hpc⟩
  | publish item pos =>
    obtain ⟨hlt, hnext⟩ := h.publish hc hpc
    simp only [MpmcQueue.tryPush, hpc, index_two_pow hsize, Nat.mod_eq_of_lt hlt, Option.some.injEq] at hs
    subst hs
    exact ⟨_, hnext⟩

omit [DecidableEq ι] in
theorem Sound.tryPop (h : Sound (2 ^ k) status s) (hk : 1 ≤ k) (hsize : k < 64)
    (hcount : counter (2 ^ k) s (.consumer j spurious : Action ι κ α) < size)
    (hs : tryPop (2 ^ k) s j spurious = some t) : ∃ status', Sound (2 ^ k) status' t := by
  have hc : 2 ≤ 2 ^ k := Nat.le_pow hk
  have hconsuming := h.threads.consuming j
  have hreload : Consuming (2 ^ k) status s.claimed s.tail s.slots j (.loadSequence s.tail) := Nat.le_refl _
  cases hpc : s.consumers j with
  | idle => simp [MpmcQueue.tryPop, hpc] at hs
  | loadTail =>
    simp only [MpmcQueue.tryPop, hpc, Option.some.injEq] at hs
    subst hs
    exact ⟨status, h.quietConsumer (by rw [hpc]; rfl) hreload⟩
  | loadSequence pos =>
    rw [hpc] at hconsuming
    simp only [counter, hpc] at hcount
    simp only [MpmcQueue.tryPop, hpc, index_two_pow hsize, Nat.mod_eq_of_lt hcount] at hs
    split_ifs at hs with hzero hneg
    · cases hs
      have hseq := eq_of_bmod_sub (h.ring.counted.2 pos) hcount hzero
      have hlt := h.ring.lt_of_filled hc (hconsuming.trans h.ring.behind) hseq
      exact ⟨status, h.quietConsumer (by rw [hpc]; rfl) ⟨hconsuming, fun _ => ⟨hlt, hseq⟩⟩⟩
    · cases hs
      exact ⟨status, h.quietConsumer (by rw [hpc]; rfl) trivial⟩
    · cases hs
      exact ⟨status, h.quietConsumer (by rw [hpc]; rfl) trivial⟩
  | exchange pos =>
    simp only [counter, hpc] at hcount
    simp only [MpmcQueue.tryPop, hpc] at hs
    split_ifs at hs with hsame
    · cases hs
      obtain ⟨rfl, -⟩ := hsame
      rw [Nat.mod_eq_of_lt hcount]
      exact ⟨_, h.take hpc⟩
    · cases hs
      exact ⟨status, h.quietConsumer (by rw [hpc]; rfl) hreload⟩
  | move pos =>
    simp only [MpmcQueue.tryPop, hpc, index_two_pow hsize, Option.some.injEq] at hs
    subst hs
    exact ⟨_, h.move hc hpc⟩
  | release pos result =>
    have hnext : pos + mask (2 ^ k) + 1 = pos + 2 ^ k := by rw [mask_two_pow hsize]; omega
    simp only [counter, hpc, hnext] at hcount
    simp only [MpmcQueue.tryPop, hpc, index_two_pow hsize, hnext, Nat.mod_eq_of_lt hcount, Option.some.injEq] at hs
    subst hs
    exact ⟨_, h.release hc hpc hcount⟩

omit [DecidableEq ι] [DecidableEq κ] in
/-- A slot outside the ring is nobody's. -/
theorem Sound.other {c slot : ℕ} (h : Sound c status s) (hc : 0 < c) (hslot : c ≤ slot) (memory : Slot α) :
    Sound c status (s.withSlot slot memory) := by
  have hsame (p : ℕ) : (s.withSlot slot memory).slots (p % c) = s.slots (p % c) := by
    apply withSlot_of_ne
    have hlt : p % c < c := Nat.mod_lt p hc
    omega
  have hring : Ring c status (s.withSlot slot memory) := { h.ring with
    counted := ⟨h.ring.counted.1, fun p => by
      rw [hsame]
      exact h.ring.counted.2 p⟩
    fresh := fun p hp hpc => by
      rw [hsame]
      exact h.ring.fresh p hp hpc
    slot := fun p hp hpc => by
      rw [hsame]
      exact h.ring.slot p hp hpc }
  have hthreads : Threads c status (s.withSlot slot memory) := { h.threads with
    producing := fun i => (h.threads.producing i).frame (fun _ _ => rfl) fun hseq => by
      rw [hsame]
      exact hseq
    consuming := fun j => (h.threads.consuming j).frame (fun _ _ => rfl) (Nat.le_refl _) fun hseq _ => by
      rw [hsame]
      exact hseq }
  exact ⟨hring, hthreads, { h.recorded with }⟩

theorem Sound.act {a : Action ι κ α} (h : Sound (2 ^ k) status s) (hk : 1 ≤ k) (hsize : k < 64)
    (hblock : 2 ^ k ≤ allotted slotSize (2 ^ k)) (hcount : counter (2 ^ k) s a < size)
    (hs : act slotSize (2 ^ k) s a = some t) : ∃ status', Sound (2 ^ k) status' t := by
  cases a with
  | push i item =>
    cases hpc : s.producers i <;> simp only [MpmcQueue.act, hpc, reduceCtorEq, Option.some.injEq] at hs
    subst hs
    exact ⟨status, h.quietProducer (by rw [hpc]; rfl) trivial⟩
  | producer i spurious => exact h.tryPush hk hsize hcount hs
  | pop j =>
    cases hpc : s.consumers j <;> simp only [MpmcQueue.act, hpc, reduceCtorEq, Option.some.injEq] at hs
    subst hs
    exact ⟨status, h.quietConsumer (by rw [hpc]; rfl) trivial⟩
  | consumer j spurious => exact h.tryPop hk hsize hcount hs
  | other slot memory =>
    simp only [MpmcQueue.act] at hs
    split_ifs at hs with hslot
    cases hs
    exact ⟨status, h.other (Nat.two_pow_pos k) (hblock.trans hslot) memory⟩

omit [DecidableEq ι] [DecidableEq κ] in
theorem sound_initial (hsize : k < 64) (memory : ℕ → Slot α) :
    Sound (2 ^ k) (fun _ => .released) (initial (2 ^ k) memory : State ι κ α) := by
  have hlt : 2 ^ k < size := Nat.pow_lt_pow_right (Nat.lt_succ_self 1) hsize
  have hmod (p : ℕ) : p % 2 ^ k < 2 ^ k := Nat.mod_lt p (Nat.two_pow_pos k)
  have hslot (p : ℕ) : ((initial (2 ^ k) memory : State ι κ α).slots (p % 2 ^ k)).sequence = p % 2 ^ k := by
    exact congrArg Slot.sequence (if_pos (hmod p))
  constructor
  case ring =>
    constructor
    case head => rfl
    case taken => rfl
    case behind => exact Nat.zero_le _
    case room => exact Nat.zero_le _
    case counted => exact ⟨Nat.two_pow_pos 64, fun p => by rw [hslot]; exact (hmod p).trans hlt⟩
    case fresh => exact fun p _ hp => by rw [hslot, Nat.mod_eq_of_lt hp]
    case slot => nofun
    case passed => nofun
    case old => nofun
  case threads => exact ⟨nofun, fun _ => trivial, fun _ => trivial⟩
  case recorded => exact ⟨nofun, nofun, nofun, nofun, List.nodup_nil, List.nodup_nil⟩

theorem Sound.reached {h : Trace (Action ι κ α) Empty} {memory : ℕ → Slot α} (hk : 1 ≤ k) (hsize : k < 64)
    (hblock : 2 ^ k ≤ allotted slotSize (2 ^ k))
    (hr : (machine slotSize (2 ^ k)).Reach (Counting (2 ^ k)) (initial (2 ^ k) memory) h s) :
    ∃ status, Sound (2 ^ k) status s := by
  apply hr.invariant (I := fun _ s => ∃ status, Sound (2 ^ k) status s)
  · exact ⟨_, sound_initial hsize memory⟩
  · intro run s a t events ⟨status, hsound⟩ hcount hstep
    obtain ⟨u, hact, heq⟩ := Option.map_eq_some_iff.mp hstep
    cases heq
    exact hsound.act hk hsize hblock hcount hact

omit [DecidableEq ι] [DecidableEq κ] in
theorem Sound.kept (h : Sound (2 ^ k) status s) (hsize : k < 64) {item : α} (hitem : s.claimed[pos]? = some item) :
    (pos, some item) ∈ s.popped ∨ Kept (2 ^ k) s item pos := by
  obtain ⟨hlt, -⟩ := List.getElem?_eq_some_iff.mp hitem
  by_cases hmoved : 4 ≤ (status pos).stage
  · obtain ⟨⟨q, data⟩, hmem, rfl⟩ := List.mem_map.mp (h.recorded.moved pos hlt hmoved)
    have hdata := (h.recorded.fifo q data hmem).2.1
    rw [← hitem, ← hdata]
    exact .inl hmem
  have hwindow : s.claimed.length ≤ pos + 2 ^ k := by
    apply h.ring.window
    intro hreleased
    rw [hreleased] at hmoved
    exact hmoved (Nat.le_succ 4)
  have hslot := h.ring.slot pos hlt hwindow
  have hholder := h.threads.holder pos hlt
  right
  rw [Kept, index_two_pow hsize]
  cases hstatus : status pos with
  | writing i =>
    rw [hstatus] at hholder
    obtain ⟨value, hi⟩ := hholder
    have hproducing := h.threads.producing i
    rw [hi] at hproducing
    obtain rfl : item = value := Option.some_injective _ (hitem.symm.trans hproducing.2)
    exact .inl ⟨i, hi⟩
  | publishing i =>
    rw [hstatus] at hslot hholder
    obtain ⟨value, hi⟩ := hholder
    have hproducing := h.threads.producing i
    rw [hi] at hproducing
    obtain rfl : item = value := Option.some_injective _ (hitem.symm.trans hproducing.2)
    exact .inr ⟨(hslot.data (Nat.le_refl 1) (Nat.le_add_left 1 2)).trans hitem, .inl ⟨i, hi⟩⟩
  | ready =>
    rw [hstatus] at hslot
    exact .inr ⟨(hslot.data (Nat.le_succ 1) (Nat.le_succ 2)).trans hitem, .inr hslot.sequence⟩
  | moving j =>
    rw [hstatus] at hslot
    exact .inr ⟨(hslot.data (Nat.le_add_left 1 2) (Nat.le_refl 3)).trans hitem, .inr hslot.sequence⟩
  | releasing | released =>
    rw [hstatus] at hmoved
    exact absurd (by simp [Status.stage]) hmoved

omit [DecidableEq ι] [DecidableEq κ] in
theorem Sound.bounded {c : ℕ} (h : Sound c status s) :
    ((List.range s.claimed.length).filter fun pos => pos ∉ s.released).length ≤ c := by
  have hsubset : (List.range s.claimed.length).filter (fun pos => pos ∉ s.released) ⊆
      List.range' (s.claimed.length - c) c := by
    intro p hp
    obtain ⟨hlt, hnot⟩ : p < s.claimed.length ∧ p ∉ s.released := by simpa using hp
    have hwindow : s.claimed.length ≤ p + c := by
      apply h.ring.window
      intro hreleased
      exact hnot (h.recorded.done p hlt (by rw [hreleased]; rfl))
    exact List.mem_range'_1.mpr (by omega)
  have hle := (List.nodup_range.filter _).subperm hsubset
  simpa using hle.length_le

omit [DecidableEq ι] [DecidableEq κ] in
theorem Sound.correct (h : Sound (2 ^ k) status s) (hsize : k < 64) : Correct (2 ^ k) s where
  inOrder := by
    have htaken := h.ring.taken
    rw [htaken, List.length_range]
  fifo pos data hmem := by
    obtain ⟨hlt, hdata, -⟩ := h.recorded.fifo pos data hmem
    exact ⟨s.claimed[pos], List.getElem?_eq_getElem hlt, by rw [hdata, List.getElem?_eq_getElem hlt]⟩
  stored pos item hmem := (h.recorded.stored pos item hmem).1
  writtenOnce := h.recorded.writtenOnce
  readOnce := h.recorded.readOnce
  kept pos item hitem := h.kept hsize hitem
  bounded := h.bounded

end Runs

section Capacity

variable {v r : ℕ}

theorem nextPowerOfTwo_eq (hv : 2 ≤ v) (hsize : v < size) : nextPowerOfTwo v = 2 ^ ((v - 1).log2 + 1) % size := by
  have hpred : (v + (size - 1)) % size = v - 1 := by
    rw [show v + (size - 1) = v - 1 + size by omega, Nat.add_mod_right, Nat.mod_eq_of_lt (by omega)]
  have htop : (v - 1).log2 < 64 := (Nat.log2_lt (by omega)).mpr (by rw [size] at hsize; omega)
  have hspread := (Top.of_ne_zero (v := v - 1) (by omega)).smear.smear.smear.smear.smear.smear.eq htop
  have hpos := Nat.two_pow_pos ((v - 1).log2 + 1)
  rw [nextPowerOfTwo, hpred]
  change (smear 32 (smear 16 (smear 8 (smear 4 (smear 2 (smear 1 (v - 1)))))) + 1) % size = _
  rw [hspread, Nat.sub_add_cancel hpos]

theorem log2_pred (hv : 2 ≤ v) : (v - 1).log2 + 1 = Nat.clog 2 v := by
  apply Nat.le_antisymm
  · have hle : v ≤ 2 ^ Nat.clog 2 v := Nat.le_pow_clog Nat.one_lt_two v
    rw [Nat.succ_le_iff, Nat.log2_lt (by omega)]
    omega
  · have hlt : v - 1 < 2 ^ ((v - 1).log2 + 1) := Nat.lt_log2_self
    apply Nat.clog_le_of_le_pow
    omega

theorem clog_lt (hle : v ≤ 2 ^ 63) : Nat.clog 2 v < 64 := Nat.lt_succ_of_le (Nat.clog_le_of_le_pow hle)

theorem nextPowerOfTwo_eq_clog (hpos : 1 ≤ v) (hle : v ≤ 2 ^ 63) : nextPowerOfTwo v = 2 ^ Nat.clog 2 v := by
  obtain rfl | hv := Nat.eq_or_lt_of_le hpos
  · decide
  · have hfits : 2 ^ Nat.clog 2 v < size := Nat.pow_lt_pow_right Nat.one_lt_two (clog_lt hle)
    have hsize : v < size := by
      rw [size]
      omega
    rw [nextPowerOfTwo_eq hv hsize, log2_pred hv, Nat.mod_eq_of_lt hfits]

theorem capacityOf_eq_clog (hr : r ≤ 2 ^ 63) : capacityOf r = 2 ^ Nat.clog 2 (max r 2) := by
  have hclamp : (if r < 2 then 2 else r) = max r 2 := by split_ifs <;> omega
  rw [capacityOf, hclamp]
  exact nextPowerOfTwo_eq_clog (by omega) (by omega)

theorem allotted_eq {slotSize c : ℕ} (hslot : 0 < slotSize) (hfits : slotSize * c < size) :
    allotted slotSize c = c := by
  rw [allotted, blockBytes, Nat.mod_eq_of_lt hfits, Nat.mul_div_cancel_left _ hslot]

theorem allotted_lt {slotSize c : ℕ} (hslot : 0 < slotSize) (hwraps : size ≤ slotSize * c) :
    allotted slotSize c < c := by
  rw [allotted, blockBytes, Nat.div_lt_iff_lt_mul hslot]
  calc slotSize * c % size < size := Nat.mod_lt _ (Nat.two_pow_pos 64)
    _ ≤ slotSize * c := hwraps
    _ = c * slotSize := Nat.mul_comm _ _

theorem capacityOf_of_lt (hr : 2 ^ 63 < r) (hsize : r < size) : capacityOf r = 0 := by
  have htop : (r - 1).log2 = 63 := by
    rw [Nat.log2_eq_iff (by omega)]
    rw [size] at hsize
    omega
  rw [capacityOf, if_neg (by omega), nextPowerOfTwo_eq (by omega) hsize, htop]
  rfl

end Capacity

section Short

variable {k n slotSize : ℕ}

/-- After `n` pushes by one producer. -/
def filled (k n : ℕ) : State Unit Unit Unit where
  head := n
  slots i :=
    if i < n then { sequence := i + 1, data := some () } else if i < 2 ^ k then { sequence := i } else { sequence := 0 }
  claimed := List.replicate n ()
  written := (List.range n).map (·, ())

theorem filled_step (hsize : k < 64) (hn : n < 2 ^ k) {h : Trace (Action Unit Unit Unit) Empty}
    {s : State Unit Unit Unit} (hr : (machine slotSize (2 ^ k)).Reach (Counting (2 ^ k)) s h (filled k n)) :
    ∃ h', (machine slotSize (2 ^ k)).Reach (Counting (2 ^ k)) s h' (filled k (n + 1)) := by
  have hlt : 2 ^ k < size := Nat.pow_lt_pow_right (Nat.lt_succ_self 1) hsize
  have hindex : index (2 ^ k) n = n := by rw [index_two_pow hsize, Nat.mod_eq_of_lt hn]
  have hnext : (n + 1) % size = n + 1 := Nat.mod_eq_of_lt (by omega)
  have hcount : n + 1 < size := by omega
  let waiting (pc : Producer Unit) : State Unit Unit Unit := (filled k n).atProducer () pc
  let claimed (pc : Producer Unit) : State Unit Unit Unit := { waiting pc with
    head := n + 1
    claimed := List.replicate n () ++ [()] }
  let stored : State Unit Unit Unit := { (claimed (.publish () n)).withSlot n { sequence := n, data := some () } with
    written := (List.range n).map (·, ()) ++ [(n, ())] }
  have hpush : act slotSize (2 ^ k) (filled k n) (.push () ()) = some (waiting (.loadHead ())) := rfl
  have hload : act slotSize (2 ^ k) (waiting (.loadHead ())) (.producer () false) =
      some (waiting (.loadSequence () n)) := by
    simp [waiting, act, tryPush, State.atProducer, filled]
  have hsequence : act slotSize (2 ^ k) (waiting (.loadSequence () n)) (.producer () false) =
      some (waiting (.exchange () n)) := by
    simp [waiting, act, tryPush, State.atProducer, filled, hindex, hn, diff]
  have hexchange : act slotSize (2 ^ k) (waiting (.exchange () n)) (.producer () false) =
      some (claimed (.write () n)) := by
    simp [waiting, claimed, act, tryPush, State.atProducer, filled, hnext]
  have hwrite : act slotSize (2 ^ k) (claimed (.write () n)) (.producer () false) = some stored := by
    simp [stored, waiting, claimed, act, tryPush, State.atProducer, State.withSlot, filled, hindex, hn]
  have hpublish : act slotSize (2 ^ k) stored (.producer () false) = some (filled k (n + 1)) := by
    have hslots : Function.update (Function.update (filled k n).slots n { sequence := n, data := some () }) n
        { sequence := n + 1, data := some () } = (filled k (n + 1)).slots := by
      rw [Function.update_idem]
      funext i
      rw [Function.update_apply]
      by_cases hi : i = n
      · simp [filled, hi]
      · have hbefore : i < n + 1 ↔ i < n := by omega
        rw [if_neg hi]
        simp only [filled, hbefore]
    simp only [act, tryPush, stored, claimed, waiting, State.atProducer, State.withSlot, Function.update_self, hindex,
      hnext, hslots, Option.some.injEq]
    simp [filled, List.replicate_succ', List.range_succ, Function.update_idem]
  have hgo {k' : Trace (Action Unit Unit Unit) Empty} {u t : State Unit Unit Unit} {a : Action Unit Unit Unit}
      (hr : (machine slotSize (2 ^ k)).Reach (Counting (2 ^ k)) s k' u)
      (hact : act slotSize (2 ^ k) u a = some t) (hc : counter (2 ^ k) u a < size) :
      ∃ k', (machine slotSize (2 ^ k)).Reach (Counting (2 ^ k)) s k' t := by
    have hstep : (machine slotSize (2 ^ k)).step u a = some (t, []) := by simp only [machine, hact, Option.map_some]
    exact ⟨_, hr.step hc hstep⟩
  have hzero : 0 < size := Nat.two_pow_pos 64
  obtain ⟨_, hr⟩ := hgo hr hpush hzero
  obtain ⟨_, hr⟩ := hgo hr hload hzero
  obtain ⟨_, hr⟩ := hgo hr hsequence hzero
  obtain ⟨_, hr⟩ := hgo hr hexchange hcount
  obtain ⟨_, hr⟩ := hgo hr hwrite hzero
  exact hgo hr hpublish hcount

theorem filled_reach (hsize : k < 64) (hn : n ≤ 2 ^ k) :
    ∃ h, (machine slotSize (2 ^ k)).Reach (Counting (2 ^ k))
      (initial (2 ^ k) fun _ => { sequence := 0 } : State Unit Unit Unit) h (filled k n) := by
  induction n with
  | zero =>
    have hstart : (initial (2 ^ k) fun _ => { sequence := 0 } : State Unit Unit Unit) = filled k 0 := by
      simp [initial, filled]
    rw [hstart]
    exact ⟨[], .refl⟩
  | succ n ih =>
    obtain ⟨h, hr⟩ := ih (Nat.le_of_succ_le hn)
    exact filled_step hsize hn hr

/-- An item in a slot behind the block is lost to whoever owns the memory there. -/
theorem short_block_lost (hsize : k < 64) (hshort : allotted slotSize (2 ^ k) < 2 ^ k) :
    ∃ h s, (machine slotSize (2 ^ k)).Reach (Counting (2 ^ k))
      (initial (2 ^ k) fun _ => { sequence := 0 } : State Unit Unit Unit) h s ∧ ¬Correct (2 ^ k) s := by
  let n := allotted slotSize (2 ^ k)
  obtain ⟨h, hr⟩ : ∃ h, (machine slotSize (2 ^ k)).Reach (Counting (2 ^ k))
      (initial (2 ^ k) fun _ => { sequence := 0 } : State Unit Unit Unit) h (filled k (n + 1)) :=
    filled_reach hsize (Nat.succ_le_of_lt hshort)
  let t : State Unit Unit Unit := (filled k (n + 1)).withSlot n { sequence := 0 }
  have hstep : (machine slotSize (2 ^ k)).step (filled k (n + 1)) (.other n { sequence := 0 }) = some (t, []) := by
    simp only [machine, act, n, le_refl, if_true, Option.map_some, t]
  have hcount : Counting (2 ^ k) h (filled k (n + 1)) (.other n { sequence := 0 }) := Nat.two_pow_pos 64
  refine ⟨_, t, hr.step hcount hstep, fun hcorrect => ?_⟩
  have hclaimed : t.claimed[n]? = some () := by simp [t, State.withSlot, filled]
  obtain hpopped | hkept := hcorrect.kept n () hclaimed
  · cases hpopped
  · have hindex : index (2 ^ k) n = n := by rw [index_two_pow hsize, Nat.mod_eq_of_lt hshort]
    rw [Kept, hindex, withSlot_self] at hkept
    obtain ⟨i, hi⟩ | ⟨hdata, -⟩ := hkept
    · cases hi
    · cases hdata

end Short

section Results

/-- Without a slot of its own, the queue goes by the memory behind it. -/
theorem no_slots_overfilled (slotSize : ℕ) : ∃ h s, (machine slotSize 0).Reach (Counting 0)
    (initial 0 fun _ => { sequence := 0 } : State Unit Unit Unit) h s ∧
      ¬((List.range s.claimed.length).filter fun pos => pos ∉ s.released).length ≤ 0 := by
  apply Machine.exists_reach (machine slotSize 0) (Counting 0) _ _
    [.push () (), .producer () false, .producer () false, .producer () false]
  rfl

/-- Two to the power of 59 and one more: the block of the 2⁶⁰ slots has no byte. -/
theorem short_block_queue_loses : ∃ h s,
    (machine 16 (capacityOf 576460752303423489)).Reach (Counting (capacityOf 576460752303423489))
      (initial (capacityOf 576460752303423489) fun _ => { sequence := 0 } : State Unit Unit Unit) h s ∧
        ¬Correct (capacityOf 576460752303423489) s := by
  have hcapacity : capacityOf 576460752303423489 = 2 ^ 60 := by decide
  rw [hcapacity]
  exact short_block_lost (by decide) (by decide)

/-- Every slot of the ring has its bytes in the block. -/
theorem queue_correct_iff {r slotSize : ℕ} (hr : r < size) (hslot : 0 < slotSize) :
    (∀ (ι κ α : Type) [DecidableEq ι] [DecidableEq κ] (memory : ℕ → Slot α) (h : Trace (Action ι κ α) Empty)
      (s : State ι κ α), (machine slotSize (capacityOf r)).Reach (Counting (capacityOf r))
        (initial (capacityOf r) memory) h s → Correct (capacityOf r) s) ↔
      slotSize * 2 ^ Nat.clog 2 (max r 2) < size := by
  constructor
  · intro hall
    by_contra hwraps
    obtain hle | hlarge := le_or_gt r (2 ^ 63)
    · have hk : Nat.clog 2 (max r 2) < 64 := clog_lt (by omega)
      rw [capacityOf_eq_clog hle] at hall
      obtain ⟨h, s, hreach, hlost⟩ := short_block_lost hk (allotted_lt hslot (not_lt.mp hwraps))
      exact hlost (hall Unit Unit Unit _ h s hreach)
    · rw [capacityOf_of_lt hlarge hr] at hall
      obtain ⟨h, s, hreach, hover⟩ := no_slots_overfilled slotSize
      exact hover (hall Unit Unit Unit _ h s hreach).bounded
  · intro hfits ι κ α _ _ memory h s hreach
    have hpow : 2 ^ Nat.clog 2 (max r 2) < 2 ^ 64 :=
      lt_of_le_of_lt (Nat.le_mul_of_pos_left _ hslot) hfits
    have hsize : Nat.clog 2 (max r 2) < 64 := (Nat.pow_lt_pow_iff_right Nat.one_lt_two).mp hpow
    have hk : 1 ≤ Nat.clog 2 (max r 2) := Nat.clog_pos Nat.one_lt_two (le_max_right r 2)
    have hle : r ≤ 2 ^ 63 := by
      calc r ≤ max r 2 := le_max_left r 2
        _ ≤ 2 ^ Nat.clog 2 (max r 2) := Nat.le_pow_clog Nat.one_lt_two _
        _ ≤ 2 ^ 63 := Nat.pow_le_pow_right Nat.two_pos (Nat.le_of_lt_succ hsize)
    rw [capacityOf_eq_clog hle] at hreach ⊢
    obtain ⟨status, hsound⟩ := Sound.reached hk hsize (allotted_eq hslot hfits).ge hreach
    exact hsound.correct hsize

theorem queue_correct_thousand :
    (∀ (ι κ α : Type) [DecidableEq ι] [DecidableEq κ] (memory : ℕ → Slot α) (h : Trace (Action ι κ α) Empty)
      (s : State ι κ α), (machine 16 (capacityOf 1000)).Reach (Counting (capacityOf 1000))
        (initial (capacityOf 1000) memory) h s → Correct (capacityOf 1000) s) ↔
      16 * 2 ^ Nat.clog 2 (max 1000 2) < size :=
  queue_correct_iff (by decide) (by decide)

end Results

end Klett.Cunk.MpmcQueue
