import Klett.Sor.MemoryPool

namespace Klett.Sor.MemoryPool

open Klett.Lib

section Words

theorem indexOf_lt (packed : ℕ) : indexOf packed < uint32 := Nat.and_lt_two_pow packed (by decide : 0xFFFFFFFF < 2 ^ 32)

theorem pack_eq_add {index tag : ℕ} (hindex : index < uint32) : pack index tag = tag * uint32 + index := by
  rw [pack, ← Nat.shiftLeft_add_eq_or_of_lt hindex, Nat.shiftLeft_eq, uint32]

theorem indexOf_pack {index tag : ℕ} (hindex : index < uint32) : indexOf (pack index tag) = index := by
  rw [pack_eq_add hindex, indexOf]
  calc (tag * uint32 + index) &&& (2 ^ 32 - 1) = (tag * uint32 + index) % 2 ^ 32 := Nat.and_two_pow_sub_one_eq_mod ..
    _ = index % 2 ^ 32 := Nat.mul_add_mod_self_right ..
    _ = index := Nat.mod_eq_of_lt hindex

theorem tagOf_pack {index tag : ℕ} (hindex : index < uint32) (htag : tag < uint32) : tagOf (pack index tag) = tag := by
  rw [pack_eq_add hindex, tagOf, Nat.shiftRight_eq_div_pow]
  unfold uint32 at *
  omega

end Words

section Invariant

variable {ι : Type} {n : ℕ} {s : State ι} {free : List ℕ} {i j : ι} {idx : ℕ} {t : Thread}

/-- A head that was loaded before the head's latest updates differs from it, unless there were too many. -/
structure Window (freeHead updates oldHead stamp : ℕ) : Prop where
  le : stamp ≤ updates
  tag : tagOf oldHead = stamp % uint32
  same : stamp = updates → oldHead = freeHead

def Working (n : ℕ) (next : ℕ → ℕ) (freeHead updates : ℕ) : Thread → Prop
  | .allocateNext oldHead stamp => Window freeHead updates oldHead stamp
  | .allocateExchange oldHead newHead stamp => Window freeHead updates oldHead stamp ∧ indexOf oldHead < n ∧
      ∃ link < uint32, newHead = pack link ((tagOf oldHead + 1) % uint32) ∧
        (stamp = updates → link = next (indexOf oldHead))
  | .deallocateExchange idx oldHead newHead =>
      next idx = indexOf oldHead ∧ newHead = pack idx ((tagOf oldHead + 1) % uint32)
  | _ => True

structure Sound (n : ℕ) (s : State ι) (free : List ℕ) : Prop where
  size : n < uint32
  list : FreeList n s free
  once : (s.held.map Prod.snd).Nodup
  placed : Placed (· < n) (At s free)
  links : ∀ idx < n, s.next idx < uint32
  tag : tagOf s.freeHead = s.updates % uint32
  working : ∀ i, Working n s.next s.freeHead s.updates (s.threads i)

theorem Sound.owned (hs : Sound n s free) : Owned n s free := ⟨hs.list, hs.list.nodup, hs.once, hs.placed⟩

theorem Window.update {freeHead newHead updates oldHead stamp : ℕ} (h : Window freeHead updates oldHead stamp) :
    Window newHead (updates + 1) oldHead stamp := by
  have hle := h.le
  exact ⟨by omega, h.tag, by omega⟩

/-- The tag has not come back to its old value, so an exchange that succeeds finds what was loaded. -/
theorem Window.current {freeHead updates stamp : ℕ} (h : Window freeHead updates freeHead stamp)
    (htag : tagOf freeHead = updates % uint32) (hfew : updates - stamp < uint32) : stamp = updates := by
  have hle := h.le
  have hstamp := h.tag
  rw [htag] at hstamp
  unfold uint32 at *
  omega

theorem Working.update {next : ℕ → ℕ} {freeHead newHead updates : ℕ} (h : Working n next freeHead updates t) :
    Working n next newHead (updates + 1) t := by
  cases t with
  | allocateNext => exact Window.update h
  | allocateExchange oldHead new stamp =>
    obtain ⟨hwindow, hidx, link, hlink, hnew, -⟩ := h
    have hle := hwindow.le
    exact ⟨hwindow.update, hidx, link, hlink, hnew, by omega⟩
  | deallocateExchange => exact h
  | _ => trivial

/-- A link that changes is no free slot's, and not that of a slot in this thread's hands. -/
theorem Working.relink (hs : Sound n s free) (h : Working n s.next s.freeHead s.updates t) (hfree : idx ∉ free)
    (hhands : t.hands ≠ some idx) (link : ℕ) :
    Working n (Function.update s.next idx link) s.freeHead s.updates t := by
  cases t with
  | allocateNext => exact h
  | allocateExchange oldHead newHead stamp =>
    obtain ⟨hwindow, hidx, link', hlink, hnew, hcurrent⟩ := h
    refine ⟨hwindow, hidx, link', hlink, hnew, fun heq => ?_⟩
    have hne : indexOf oldHead ≠ idx := by
      rintro rfl
      apply hfree
      have hlist := hs.list
      rw [FreeList, ← hwindow.same heq] at hlist
      cases hlist with
      | nil hstop => omega
      | cons => exact List.mem_cons_self
    rw [Function.update_of_ne hne]
    exact hcurrent heq
  | deallocateExchange idx' oldHead newHead =>
    obtain ⟨hnext, hnew⟩ := h
    have hne : idx' ≠ idx := by
      rintro rfl
      exact hhands rfl
    exact ⟨by rwa [Function.update_of_ne hne], hnew⟩
  | _ => trivial

theorem Sound.forall_relink (hs : Sound n s free) {link : ℕ} (hlink : link < uint32) :
    ∀ b < n, Function.update s.next idx link b < uint32 := by
  intro b hb
  rw [Function.update_apply]
  split
  · exact hlink
  · exact hs.links b hb

theorem at_of_hands {s' : State ι} {free' : List ℕ} {b : ℕ} (hfree : b ∈ free' ↔ b ∈ free)
    (hheld : ∀ j, (j, b) ∈ s'.held ↔ (j, b) ∈ s.held) (hthreads : ∀ j ≠ i, s'.threads j = s.threads j)
    (hold : (s.threads i).hands ≠ some b) (hnew : (s'.threads i).hands ≠ some b) (p : Place ι) :
    At s' free' b p ↔ At s free b p := by
  cases p with
  | free => exact hfree
  | held j => exact hheld j
  | hands j =>
    obtain rfl | hne := eq_or_ne j i
    · exact iff_of_false hnew hold
    · rw [At, hthreads j hne, At]

theorem Sound.hands_ne (hs : Sound n s free) (hhands : (s.threads i).hands = some idx) (hne : j ≠ i) :
    (s.threads j).hands ≠ some idx := by
  intro hj
  exact hne (Place.hands.inj (hs.placed.eq (p := .hands j) (q := .hands i) hj hhands))

theorem Sound.overwrite (hs : Sound n s free) (hheld : (i, idx) ∈ s.held) (link : ℕ) :
    Sound n { s with next := Function.update s.next idx (link % uint32) } free := by
  have hplace : ∀ p, At s free idx p → p = .held i := fun p hp => hs.placed.eq hp (q := .held i) hheld
  have hfree : idx ∉ free := by
    intro hmem
    cases hplace .free hmem
  refine ⟨hs.size, ?_, hs.once, hs.placed.congr fun b p => by cases p <;> rfl, ?_, hs.tag, fun j => ?_⟩
  · exact hs.list.congr fun b hb => Function.update_of_ne (ne_of_mem_of_not_mem hb hfree) ..
  · exact hs.forall_relink (Nat.mod_lt _ (Nat.two_pow_pos 32))
  · apply (hs.working j).relink hs hfree
    intro hj
    cases hplace (.hands j) hj

end Invariant

section Steps

variable {ι : Type} [DecidableEq ι] {n : ℕ} {s : State ι} {free : List ℕ} {i j : ι} {idx : ℕ} {t : Thread}
  {h : Trace (Action ι) (Event ι)}

theorem atThread_self : (s.atThread i t).threads i = t := Function.update_self ..

theorem atThread_of_ne (hne : j ≠ i) : (s.atThread i t).threads j = s.threads j := Function.update_of_ne hne ..

theorem forall_atThread {p : Thread → Prop} (hself : p t) (hother : ∀ j ≠ i, p (s.threads j)) :
    ∀ j, p ((s.atThread i t).threads j) :=
  (Function.forall_update_iff s.threads (fun _ x => p x)).mpr ⟨hself, hother⟩

theorem hands_cases (hj : ((s.atThread i t).threads j).hands = some idx) :
    j = i ∧ t.hands = some idx ∨ j ≠ i ∧ (s.threads j).hands = some idx := by
  obtain rfl | hne := eq_or_ne j i
  · rw [atThread_self] at hj
    exact .inl ⟨rfl, hj⟩
  · rw [atThread_of_ne hne] at hj
    exact .inr ⟨hne, hj⟩

theorem hands_atThread (hhands : t.hands = (s.threads i).hands) (j : ι) :
    ((s.atThread i t).threads j).hands = (s.threads j).hands := by
  obtain rfl | hne := eq_or_ne j i
  · rw [atThread_self, hhands]
  · rw [atThread_of_ne hne]

theorem at_atThread (hhands : t.hands = (s.threads i).hands) (idx : ℕ) (p : Place ι) :
    At (s.atThread i t) free idx p ↔ At s free idx p := by
  cases p with
  | free => exact Iff.rfl
  | held => exact Iff.rfl
  | hands j => rw [At, hands_atThread hhands, At]

theorem Sound.quiet (hs : Sound n s free) (hhands : t.hands = (s.threads i).hands)
    (hworking : Working n s.next s.freeHead s.updates t) (available : ℕ) :
    Sound n { s.atThread i t with available := available } free where
  size := hs.size
  list := hs.list
  once := hs.once
  placed := hs.placed.congr (at_atThread hhands)
  links := hs.links
  tag := hs.tag
  working := forall_atThread hworking fun j _ => hs.working j

theorem Sound.turn (hs : Sound n s free) (hhands : t.hands = (s.threads i).hands)
    (hworking : Working n s.next s.freeHead s.updates t) : Sound n (s.atThread i t) free :=
  hs.quiet hhands hworking s.available

theorem Sound.allocateExchange (hs : Sound n s free) {newHead stamp : ℕ}
    (hpc : s.threads i = .allocateExchange s.freeHead newHead stamp) (hfew : s.updates - stamp < uint32) :
    ∃ free', Sound n { s.atThread i (.allocateCount (indexOf s.freeHead)) with
      freeHead := newHead
      updates := s.updates + 1 } free' := by
  have hworking := hs.working i
  rw [hpc] at hworking
  obtain ⟨hwindow, hidx, link, hlink, rfl, hnext⟩ := hworking
  have htag : (tagOf s.freeHead + 1) % uint32 < uint32 := Nat.mod_lt _ (Nat.two_pow_pos 32)
  have hlist := hs.list
  rw [FreeList] at hlist
  generalize hhead : indexOf s.freeHead = head at *
  cases hlist with
  | nil hstop => omega
  | @cons _ rest hnot hrest =>
  have hnodup := hs.owned.acyclic
  refine ⟨rest, hs.size, ?_, hs.once, ?_, hs.links, ?_, ?_⟩
  · rw [FreeList, indexOf_pack hlink, hnext (hwindow.current hs.tag hfew)]
    exact hrest
  · apply hs.placed.move (a := head) (o := .free) (q := .hands i) List.mem_cons_self
    · exact congrArg Thread.hands atThread_self
    · intro p hp
      cases p with
      | free => exact absurd hp (List.nodup_cons.mp hnodup).1
      | held j => exact .inr ⟨nofun, hp⟩
      | hands j =>
        obtain ⟨rfl, -⟩ | ⟨-, hj⟩ := hands_cases hp
        · exact .inl rfl
        · exact .inr ⟨nofun, hj⟩
    · intro b hb
      apply at_of_hands (i := i)
      · simp [hb]
      · intro j
        rfl
      · exact fun j hne => atThread_of_ne hne
      · rw [hpc]
        nofun
      · simpa [State.atThread, Thread.hands] using hb.symm
  · dsimp only
    rw [tagOf_pack hlink htag, hs.tag, Nat.mod_add_mod]
  · apply forall_atThread
    · trivial
    · exact fun j _ => (hs.working j).update

theorem Sound.allocateCount (hs : Sound n s free) (hpc : s.threads i = .allocateCount idx) (available : ℕ) :
    Sound n { s.atThread i .idle with available := available, held := (i, idx) :: s.held } free := by
  have hhands : (s.threads i).hands = some idx := by rw [hpc]; rfl
  refine ⟨hs.size, hs.list, ?_, ?_, hs.links, hs.tag, forall_atThread trivial fun j _ => hs.working j⟩
  · simp only [List.map_cons, List.nodup_cons]
    refine ⟨fun hmem => ?_, hs.once⟩
    obtain ⟨⟨j, b⟩, hj, rfl⟩ := List.mem_map.mp hmem
    cases hs.placed.eq (p := .held j) (q := .hands i) hj hhands
  · apply hs.placed.move (a := idx) (o := .hands i) (q := .held i) hhands List.mem_cons_self
    · intro p hp
      cases p with
      | free => exact .inr ⟨nofun, hp⟩
      | held j =>
        obtain heq | hj := List.mem_cons.mp hp
        · exact .inl (congrArg Place.held (Prod.mk.inj heq).1)
        · exact .inr ⟨nofun, hj⟩
      | hands j =>
        obtain ⟨-, hidle⟩ | ⟨hne, hj⟩ := hands_cases hp
        · cases hidle
        · exact .inr ⟨fun heq => hne (Place.hands.inj heq), hj⟩
    · intro b hb
      apply at_of_hands (i := i) Iff.rfl
      · simp [hb]
      · exact fun j hne => atThread_of_ne hne
      · simpa [hhands] using hb.symm
      · simp [State.atThread, Thread.hands]

/-- The pair that is erased was there once. -/
theorem Sound.mem_erase (hs : Sound n s free) (hj : (j, idx) ∈ s.held.erase (i, idx)) : j ≠ i ∧ (j, idx) ∈ s.held := by
  refine ⟨?_, List.mem_of_mem_erase hj⟩
  rintro rfl
  exact (List.Nodup.of_map _ hs.once).not_mem_erase hj

theorem Sound.deallocate (hs : Sound n s free) (hpc : s.threads i = .idle) (hheld : (i, idx) ∈ s.held) :
    Sound n { s.atThread i (.deallocateLoad idx) with held := s.held.erase (i, idx) } free := by
  refine ⟨hs.size, hs.list, hs.once.sublist (List.erase_sublist.map _), ?_, hs.links, hs.tag,
    forall_atThread trivial fun j _ => hs.working j⟩
  apply hs.placed.move (a := idx) (o := .held i) (q := .hands i) hheld
  · exact congrArg Thread.hands atThread_self
  · intro p hp
    cases p with
    | free => exact .inr ⟨nofun, hp⟩
    | held j =>
      obtain ⟨hne, hj⟩ := hs.mem_erase hp
      exact .inr ⟨fun heq => hne (Place.held.inj heq), hj⟩
    | hands j =>
      obtain ⟨rfl, -⟩ | ⟨-, hj⟩ := hands_cases hp
      · exact .inl rfl
      · exact .inr ⟨nofun, hj⟩
  · intro b hb
    apply at_of_hands (i := i) Iff.rfl
    · intro j
      exact List.mem_erase_of_ne (by simp [hb])
    · exact fun j hne => atThread_of_ne hne
    · rw [hpc]
      nofun
    · simpa [State.atThread, Thread.hands] using hb.symm

theorem Sound.deallocateExchange (hs : Sound n s free) {newHead : ℕ}
    (hpc : s.threads i = .deallocateExchange idx s.freeHead newHead) :
    Sound n { s.atThread i .deallocateCount with
      freeHead := newHead
      updates := s.updates + 1 } (idx :: free) := by
  have hhands : (s.threads i).hands = some idx := by rw [hpc]; rfl
  have hworking := hs.working i
  rw [hpc] at hworking
  obtain ⟨hnext, rfl⟩ := hworking
  have hslot : idx < n := hs.placed.slot idx (.hands i) hhands
  have hword : idx < uint32 := hslot.trans hs.size
  have htag : (tagOf s.freeHead + 1) % uint32 < uint32 := Nat.mod_lt _ (Nat.two_pow_pos 32)
  refine ⟨hs.size, ?_, hs.once, ?_, hs.links, ?_, forall_atThread trivial fun j _ => (hs.working j).update⟩
  · rw [FreeList, indexOf_pack hword]
    apply Links.cons (by omega)
    dsimp only
    rw [State.atThread, hnext]
    exact hs.list
  · apply hs.placed.move (a := idx) (o := .hands i) (q := .free) hhands List.mem_cons_self
    · intro p hp
      cases p with
      | free => exact .inl rfl
      | held j => exact .inr ⟨nofun, hp⟩
      | hands j =>
        obtain ⟨-, hidle⟩ | ⟨hne, hj⟩ := hands_cases hp
        · cases hidle
        · exact .inr ⟨fun heq => hne (Place.hands.inj heq), hj⟩
    · intro b hb
      apply at_of_hands (i := i)
      · simp [hb]
      · intro j
        rfl
      · exact fun j hne => atThread_of_ne hne
      · simpa [hhands] using hb.symm
      · simp [State.atThread, Thread.hands]
  · dsimp only
    rw [tagOf_pack hword htag, hs.tag, Nat.mod_add_mod]

theorem Sound.deallocateNext (hs : Sound n s free) {oldHead : ℕ} (hpc : s.threads i = .deallocateNext idx oldHead) :
    Sound n { s.atThread i (.deallocateExchange idx oldHead (pack idx ((tagOf oldHead + 1) % uint32))) with
      next := Function.update s.next idx (indexOf oldHead) } free := by
  have hhands : (s.threads i).hands = some idx := by rw [hpc]; rfl
  have hfree : idx ∉ free := by
    intro hmem
    cases hs.placed.eq (p := .free) (q := .hands i) hmem hhands
  refine ⟨hs.size, ?_, hs.once, ?_, ?_, hs.tag, ?_⟩
  · exact hs.list.congr fun b hb => Function.update_of_ne (ne_of_mem_of_not_mem hb hfree) ..
  · apply hs.placed.congr
    exact at_atThread (t := .deallocateExchange idx oldHead _) (by rw [hpc]; rfl)
  · exact hs.forall_relink (indexOf_lt oldHead)
  · apply forall_atThread
    · exact ⟨Function.update_self .., rfl⟩
    · exact fun j hne => (hs.working j).relink hs hfree (hs.hands_ne hhands hne) _

theorem Sound.give (hs : Sound n s free) (hheld : (i, idx) ∈ s.held) (j : ι) :
    Sound n { s with held := (j, idx) :: s.held.erase (i, idx) } free := by
  refine ⟨hs.size, hs.list, ?_, ?_, hs.links, hs.tag, hs.working⟩
  · have hperm := ((List.perm_cons_erase hheld).map Prod.snd).nodup_iff.mp hs.once
    simpa only [List.map_cons] using hperm
  · apply hs.placed.move (a := idx) (o := .held i) (q := .held j) hheld List.mem_cons_self
    · intro p hp
      cases p with
      | free => exact .inr ⟨nofun, hp⟩
      | held k =>
        obtain heq | hk := List.mem_cons.mp hp
        · exact .inl (congrArg Place.held (Prod.mk.inj heq).1)
        · obtain ⟨hne, hk⟩ := hs.mem_erase hk
          exact .inr ⟨fun heq => hne (Place.held.inj heq), hk⟩
      | hands k => exact .inr ⟨nofun, hp⟩
    · intro b hb p
      cases p with
      | free => rfl
      | held k => simp [At, hb, List.mem_erase_of_ne]
      | hands k => rfl

theorem Sound.advance (hs : Sound n s free) {spurious : Bool} (hguard : Windowed h s (.thread i spurious))
    {s' : State ι} {es : List (Event ι)} (hstep : advance n s i spurious = some (s', es)) : ∃ free', Sound n s' free' := by
  have hworking := hs.working i
  simp only [MemoryPool.advance] at hstep
  simp only [Windowed, window] at hguard
  cases hpc : s.threads i with
  | idle => simp [hpc] at hstep
  | allocateLoad =>
    simp only [hpc, Option.some.injEq, Prod.mk.injEq] at hstep
    obtain ⟨rfl, -⟩ := hstep
    exact ⟨free, hs.turn (by rw [hpc]; rfl) ⟨Nat.le_refl _, hs.tag, fun _ => rfl⟩⟩
  | allocateNext oldHead stamp =>
    rw [hpc] at hworking
    simp only [hpc] at hstep
    split_ifs at hstep with hidx <;> simp only [Option.some.injEq, Prod.mk.injEq] at hstep <;> obtain ⟨rfl, -⟩ := hstep
    · exact ⟨free, hs.turn (by rw [hpc]; rfl) trivial⟩
    · have hlt : indexOf oldHead < n := by omega
      exact ⟨free, hs.turn (by rw [hpc]; rfl)
        ⟨hworking, hlt, _, hs.links _ hlt, rfl, fun _ => rfl⟩⟩
  | allocateExchange oldHead newHead stamp =>
    simp only [hpc] at hstep hguard
    split_ifs at hstep with hsame <;> simp only [Option.some.injEq, Prod.mk.injEq] at hstep <;> obtain ⟨rfl, -⟩ := hstep
    · obtain ⟨rfl, -⟩ := hsame
      exact hs.allocateExchange hpc hguard
    · exact ⟨free, hs.turn (by rw [hpc]; rfl) ⟨Nat.le_refl _, hs.tag, fun _ => rfl⟩⟩
  | allocateCount idx =>
    simp only [hpc, Option.some.injEq, Prod.mk.injEq] at hstep
    obtain ⟨rfl, -⟩ := hstep
    exact ⟨free, hs.allocateCount hpc _⟩
  | deallocateLoad idx =>
    simp only [hpc, Option.some.injEq, Prod.mk.injEq] at hstep
    obtain ⟨rfl, -⟩ := hstep
    exact ⟨free, hs.turn (by rw [hpc]; rfl) trivial⟩
  | deallocateNext idx oldHead =>
    simp only [hpc, Option.some.injEq, Prod.mk.injEq] at hstep
    obtain ⟨rfl, -⟩ := hstep
    exact ⟨free, hs.deallocateNext hpc⟩
  | deallocateExchange idx oldHead newHead =>
    simp only [hpc] at hstep
    split_ifs at hstep with hsame <;> simp only [Option.some.injEq, Prod.mk.injEq] at hstep <;> obtain ⟨rfl, -⟩ := hstep
    · obtain ⟨rfl, -⟩ := hsame
      exact ⟨_, hs.deallocateExchange hpc⟩
    · exact ⟨free, hs.turn (by rw [hpc]; rfl) trivial⟩
  | deallocateCount =>
    simp only [hpc, Option.some.injEq, Prod.mk.injEq] at hstep
    obtain ⟨rfl, -⟩ := hstep
    exact ⟨free, hs.quiet (t := .idle) (by rw [hpc]; rfl) trivial _⟩

theorem Sound.act (hs : Sound n s free) {a : Action ι} (hguard : Windowed h s a) {s' : State ι} {es : List (Event ι)}
    (hstep : act n s a = some (s', es)) : ∃ free', Sound n s' free' := by
  cases a with
  | allocate i =>
    cases hpc : s.threads i <;> simp only [MemoryPool.act, hpc, reduceCtorEq, Option.some.injEq, Prod.mk.injEq] at hstep
    obtain ⟨rfl, -⟩ := hstep
    exact ⟨free, hs.turn (by rw [hpc]; rfl) trivial⟩
  | deallocate i idx =>
    cases hpc : s.threads i <;> simp only [MemoryPool.act, hpc, reduceCtorEq] at hstep
    split_ifs at hstep with hheld
    obtain ⟨rfl, -⟩ := Prod.mk.inj (Option.some.inj hstep)
    exact ⟨free, hs.deallocate hpc hheld⟩
  | thread i spurious => exact hs.advance hguard hstep
  | overwrite i idx link =>
    simp only [MemoryPool.act] at hstep
    split_ifs at hstep with hheld
    obtain ⟨rfl, -⟩ := Prod.mk.inj (Option.some.inj hstep)
    exact ⟨free, hs.overwrite hheld link⟩
  | give i j idx =>
    simp only [MemoryPool.act] at hstep
    split_ifs at hstep with hheld
    obtain ⟨rfl, -⟩ := Prod.mk.inj (Option.some.inj hstep)
    exact ⟨free, hs.give hheld j⟩

end Steps

section Runs

variable {ι : Type} {n : ℕ}

theorem links_succ {a : ℕ} (hle : a ≤ n) : Links (· + 1) (n ≤ ·) a (List.range' a (n - a)) := by
  induction hlength : n - a generalizing a with
  | zero => exact .nil (by omega)
  | succ m ih =>
    rw [List.range'_succ]
    exact .cons (by omega) (ih (by omega) (by omega))

theorem sound_initial (hsize : n < uint32) : Sound n (initial n : State ι) (List.range' 0 n) where
  size := hsize
  list := by
    have hhead : indexOf (pack 0 0) = 0 := by decide
    rw [FreeList, initial, hhead]
    exact links_succ (Nat.zero_le n)
  once := List.nodup_nil
  placed := by
    constructor
    · intro idx hidx
      refine ⟨.free, by simpa [At] using hidx, ?_⟩
      intro p hp
      cases p <;> simp_all [At, initial, Thread.hands]
    · intro idx p hp
      cases p <;> simp_all [At, initial, Thread.hands]
  links idx hidx := by
    dsimp only [initial]
    omega
  tag := by
    have htag : tagOf (pack 0 0) = 0 := by decide
    rw [initial, htag, Nat.zero_mod]
  working _ := trivial

variable [DecidableEq ι] {s t : State ι} {h : Trace (Action ι) (Event ι)} {es : List (Event ι)} {a : Action ι} {i j : ι}

theorem exists_sound (hsize : n < uint32) (hr : (machine n).Reach Windowed (initial n) h s) : ∃ free, Sound n s free := by
  apply hr.invariant (I := fun _ t => ∃ free, Sound n t free) ⟨_, sound_initial hsize⟩
  intro h t a u es ⟨free, hs⟩ hguard hstep
  exact hs.act hguard hstep

theorem of_update {f : ι → Thread} {x y : Thread} (hpc : Function.update f j x i = y) : x = y ∨ i ≠ j ∧ f i = y := by
  obtain rfl | hne := eq_or_ne i j
  · rw [Function.update_self] at hpc
    exact .inl hpc
  · rw [Function.update_of_ne hne] at hpc
    exact .inr ⟨hne, hpc⟩

/-- A thread about to look at the head it loaded has just loaded it, or has had it in hand since before the step. -/
theorem loaded_or_kept {oldHead stamp : ℕ} (hstep : act n s a = some (t, es))
    (hpc : t.threads i = .allocateNext oldHead stamp) :
    s.threads i = .allocateNext oldHead stamp ∧ a ≠ .allocate i ∨ t.freeHead = oldHead := by
  cases a with
  | allocate j =>
    cases hj : s.threads j <;> simp only [act, hj, reduceCtorEq, Option.some.injEq, Prod.mk.injEq] at hstep
    obtain ⟨rfl, -⟩ := hstep
    obtain heq | ⟨hne, hs⟩ := of_update hpc
    · cases heq
    · exact .inl ⟨hs, fun heq => hne (Action.allocate.inj heq).symm⟩
  | deallocate j idx =>
    cases hj : s.threads j <;> simp only [act, hj, reduceCtorEq] at hstep
    split_ifs at hstep
    obtain ⟨rfl, -⟩ := Prod.mk.inj (Option.some.inj hstep)
    obtain heq | ⟨-, hs⟩ := of_update hpc
    · cases heq
    · exact .inl ⟨hs, nofun⟩
  | thread j spurious =>
    simp only [act, advance] at hstep
    cases hj : s.threads j <;> simp only [hj] at hstep
    case idle => cases hstep
    all_goals
      try split_ifs at hstep
      all_goals
        obtain ⟨rfl, -⟩ := Prod.mk.inj (Option.some.inj hstep)
        obtain heq | ⟨-, hs⟩ := of_update hpc
        · first | exact .inr (Thread.allocateNext.inj heq).1 | cases heq
        · exact .inl ⟨hs, nofun⟩
  | overwrite j idx link =>
    simp only [act] at hstep
    split_ifs at hstep
    obtain ⟨rfl, -⟩ := Prod.mk.inj (Option.some.inj hstep)
    exact .inl ⟨hpc, nofun⟩
  | give j k idx =>
    simp only [act] at hstep
    split_ifs at hstep
    obtain ⟨rfl, -⟩ := Prod.mk.inj (Option.some.inj hstep)
    exact .inl ⟨hpc, nofun⟩

theorem exhausted_of_mem (hstep : act n s a = some (t, es)) (hmem : .exhausted i ∈ es) :
    ∃ oldHead stamp, s.threads i = .allocateNext oldHead stamp ∧ n ≤ indexOf oldHead := by
  cases a with
  | thread j spurious =>
    simp only [act, advance] at hstep
    cases hj : s.threads j <;> simp only [hj] at hstep
    case idle => cases hstep
    case allocateNext oldHead stamp =>
      split_ifs at hstep with hidx
      · obtain ⟨-, rfl⟩ := Prod.mk.inj (Option.some.inj hstep)
        obtain rfl : i = j := by simpa using hmem
        exact ⟨oldHead, stamp, hj, hidx⟩
      · obtain ⟨-, rfl⟩ := Prod.mk.inj (Option.some.inj hstep)
        cases hmem
    all_goals
      try split_ifs at hstep
      all_goals
        obtain ⟨-, rfl⟩ := Prod.mk.inj (Option.some.inj hstep)
        simp at hmem
  | allocate j =>
    cases hj : s.threads j <;> simp only [act, hj, reduceCtorEq, Option.some.injEq, Prod.mk.injEq] at hstep
    obtain ⟨-, rfl⟩ := hstep
    cases hmem
  | deallocate j idx =>
    cases hj : s.threads j <;> simp only [act, hj, reduceCtorEq] at hstep
    split_ifs at hstep
    obtain ⟨-, rfl⟩ := Prod.mk.inj (Option.some.inj hstep)
    cases hmem
  | overwrite | give =>
    simp only [act] at hstep
    split_ifs at hstep
    obtain ⟨-, rfl⟩ := Prod.mk.inj (Option.some.inj hstep)
    cases hmem

theorem seenEmpty_of_next (hr : (machine n).Reach Windowed (initial n) h s) :
    ∀ i oldHead stamp, s.threads i = .allocateNext oldHead stamp → n ≤ indexOf oldHead → SeenEmpty n h i := by
  induction hr with
  | refl => nofun
  | @step h s a t es hr hguard hstep ih =>
    intro i oldHead stamp hpc hidx
    obtain ⟨hs, hne⟩ | hhead := loaded_or_kept hstep hpc
    · obtain ⟨k, l, u, rfl, hu, hempty, hin, hl⟩ := ih i oldHead stamp hs hidx
      refine ⟨k, l ++ [(a, es)], u, by rw [List.append_assoc], hu, hempty, hin, ?_⟩
      intro x hx
      obtain hx | hx := List.mem_append.mp hx
      · exact hl x hx
      · rw [List.mem_singleton.mp hx]
        exact hne
    · refine ⟨h ++ [(a, es)], [], t, by simp, hr.step hguard hstep, ?_, ?_, nofun⟩
      · rw [FreeList, hhead]
        exact .nil hidx
      · rw [hpc]
        trivial

theorem owned_and_seenEmpty (hsize : n < uint32) (hr : (machine n).Reach Windowed (initial n) h s) :
    (∃ free, Owned n s free) ∧
      ∀ k i a es l, h = k ++ (a, es) :: l → Event.exhausted i ∈ es → SeenEmpty n k i := by
  constructor
  · obtain ⟨free, hs⟩ := exists_sound hsize hr
    exact ⟨free, hs.owned⟩
  · intro k i a es l heq hmem
    apply hr.forall_entry (P := fun k x => ∀ i, Event.exhausted i ∈ x.2 → SeenEmpty n k i) _ k (a, es) l heq i hmem
    intro k t a u es hk _ hstep i hmem
    obtain ⟨oldHead, stamp, hpc, hidx⟩ := exhausted_of_mem hstep hmem
    exact seenEmpty_of_next hk i oldHead stamp hpc hidx

end Runs

section Instance

instance (h : Trace (Action Bool) (Event Bool)) (s : State Bool) (a : Action Bool) : Decidable (Windowed h s a) :=
  inferInstanceAs (Decidable (_ < _))

def oneSlotForTwo : List (Action Bool) :=
  .allocate false :: .allocate true :: List.replicate 4 (.thread false false) ++ List.replicate 2 (.thread true false)

theorem owned_and_seenEmpty_oneSlotForTwo : ∃ h s, (machine 1).Reach Windowed (initial 1) h s ∧
    h.events = [Event.allocated false 0, .exhausted true] ∧ (∃ free, Owned 1 s free) ∧
      ∀ k i a es l, h = k ++ (a, es) :: l → Event.exhausted i ∈ es → SeenEmpty 1 k i := by
  obtain ⟨h, s, hr, hevents⟩ := Machine.exists_reach (machine 1) Windowed (initial 1)
    (fun h _ => h.events = [Event.allocated false 0, .exhausted true]) oneSlotForTwo (by decide)
  exact ⟨h, s, hr, hevents, owned_and_seenEmpty (by decide) hr⟩

end Instance

end Klett.Sor.MemoryPool
