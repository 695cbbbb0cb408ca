import Klett.Lib.Custody
import Klett.Lib.Machine

namespace Klett.Cunk.Task

open Klett.Lib

section Model

/-- What the constructor asks of the type of a callable. -/
structure Fn where
  size : ℕ
  align : ℕ
  nothrowMoveConstructible : Bool
  deriving DecidableEq

def smallBufferSize : ℕ := 48

def maxAlign : ℕ := 16

def Fn.isSmall (fn : Fn) : Bool := fn.size ≤ smallBufferSize ∧ fn.align ≤ maxAlign ∧ fn.nothrowMoveConstructible

inductive Ops where
  | inlineOps (fn : Fn)
  | heapOps (fn : Fn)

/-- The bytes in `storage_`, as far as they are read as a pointer. A heap address is named by its callable. -/
inductive Bytes where
  | other
  | pointer (c : ℕ)

/-- What lives in `storage_`: nothing, a callable, or the shell that a move has left of it. -/
inductive Object where
  | nothing
  | full (c : ℕ)
  | shell (c : ℕ)
  deriving DecidableEq

/-- A slot with `ops = none` has no `Task` in it. The bytes stay when a `Task` goes. The fields from `inside` on are
what the program does not see: where the callables are, and what was done to them. -/
structure State (ι : Type) where
  ops : ι → Option (Option Ops) := fun _ => none
  storage : ι → Bytes := fun _ => .other
  inside : ι → Object := fun _ => .nothing
  onHeap : ℕ → Bool := fun _ => false
  born : ℕ := 0
  destroyed : ℕ → ℕ := fun _ => 0
  completed : ℕ → ℕ := fun _ => 0
  misused : Bool := false

inductive Action (ι : Type) where
  | default (i : ι)
  | construct (i : ι)
  | moveConstruct (i j : ι)
  | moveAssign (i j : ι)
  | invoke (i : ι) (throws : Bool)
  | destruct (i : ι)

variable {ι : Type} [DecidableEq ι]

-- The type of each callable, in the order of their construction.
variable (typeOf : ℕ → Fn)

namespace State

variable (s : State ι)

def misuse : State ι := { s with misused := true }

def called (throws : Bool) (c : ℕ) : State ι :=
  { s with completed := if throws then s.completed else Function.update s.completed c (s.completed c + 1) }

def gone (c : ℕ) : State ι := { s with destroyed := Function.update s.destroyed c (s.destroyed c + 1) }

def setInside (i : ι) (o : Object) : State ι := { s with inside := Function.update s.inside i o }

def setStorage (i : ι) (b : Bytes) : State ι := { s with storage := Function.update s.storage i b }

def setOnHeap (c : ℕ) (b : Bool) : State ι := { s with onHeap := Function.update s.onHeap c b }

def setOps (i : ι) (ops : Option (Option Ops)) : State ι := { s with ops := Function.update s.ops i ops }

/-- `new (&storage_) Fn(…)`. -/
def newInside (i : ι) : State ι :=
  if s.inside i = .nothing then { (s.setInside i (.full s.born)).setStorage i .other with born := s.born + 1 }
  else s.misuse

/-- `new Fn(…)`, and the pointer copied into the bytes. -/
def newOnHeap (i : ι) : State ι :=
  if s.inside i = .nothing then { (s.setOnHeap s.born true).setStorage i (.pointer s.born) with born := s.born + 1 }
  else s.misuse

/-- Calls `fn()` on the object in `storage_`. -/
def callInside (i : ι) (fn : Fn) (throws : Bool) : State ι :=
  match s.inside i with
  | .full c => if typeOf c = fn then s.called throws c else s.misuse
  | _ => s.misuse

/-- The destructor `~Fn()` of the object in `storage_`. -/
def destroyInside (i : ι) (fn : Fn) : State ι :=
  match s.inside i with
  | .full c => if typeOf c = fn then (s.setInside i .nothing).gone c else s.misuse
  | .shell c => if typeOf c = fn then s.setInside i .nothing else s.misuse
  | .nothing => s.misuse

/-- `new (dst) Fn(std::move(*src))`. -/
def moveInside (src dst : ι) (fn : Fn) : State ι :=
  match s.inside src, s.inside dst with
  | .full c, .nothing =>
    if typeOf c = fn then ((s.setInside src (.shell c)).setInside dst (.full c)).setStorage dst .other else s.misuse
  | _, _ => s.misuse

def callOnHeap (c : ℕ) (fn : Fn) (throws : Bool) : State ι :=
  if s.onHeap c = true ∧ typeOf c = fn then s.called throws c else s.misuse

def deleteOnHeap (c : ℕ) (fn : Fn) : State ι :=
  if s.onHeap c = true ∧ typeOf c = fn then (s.setOnHeap c false).gone c else s.misuse

end State

open State

/-- An exception leaves `invoke` before the callable is destroyed. -/
def Ops.invoke (ops : Ops) (i : ι) (throws : Bool) (s : State ι) : State ι :=
  match ops with
  | .inlineOps fn =>
    let called := s.callInside typeOf i fn throws
    if throws then called else called.destroyInside typeOf i fn
  | .heapOps fn =>
    match s.storage i with
    | .pointer c =>
      let called := s.callOnHeap typeOf c fn throws
      if throws then called else called.deleteOnHeap typeOf c fn
    | .other => s.misuse

def Ops.destroy (ops : Ops) (i : ι) (s : State ι) : State ι :=
  match ops with
  | .inlineOps fn => s.destroyInside typeOf i fn
  | .heapOps fn =>
    match s.storage i with
    | .pointer c => s.deleteOnHeap typeOf c fn
    | .other => s.misuse

def Ops.move (ops : Ops) (src dst : ι) (s : State ι) : State ι :=
  match ops with
  | .inlineOps fn => (s.moveInside typeOf src dst fn).destroyInside typeOf src fn
  | .heapOps _ => if s.inside dst = .nothing then s.setStorage dst (s.storage src) else s.misuse

def destroy (i : ι) (s : State ι) : State ι :=
  match s.ops i with
  | some (some ops) => (ops.destroy typeOf i s).setOps i (some none)
  | _ => s

def construct (i : ι) (s : State ι) : State ι :=
  let fn := typeOf s.born
  if fn.isSmall then (s.newInside i).setOps i (some (some (.inlineOps fn)))
  else (s.newOnHeap i).setOps i (some (some (.heapOps fn)))

/-- What the move constructor and the move assignment have in common. -/
def takeFrom (i j : ι) (s : State ι) : State ι :=
  match s.ops j with
  | some (some ops) => ((ops.move typeOf j i s).setOps i (some (some ops))).setOps j (some none)
  | _ => s

def moveConstruct (i j : ι) (s : State ι) : State ι := takeFrom typeOf i j (s.setOps i (some none))

def moveAssign (i j : ι) (s : State ι) : State ι :=
  if i = j then s else takeFrom typeOf i j (destroy typeOf i s)

def invoke (i : ι) (throws : Bool) (s : State ι) : State ι :=
  match s.ops i with
  | some (some ops) =>
    let invoked := ops.invoke typeOf i throws s
    if throws then invoked else invoked.setOps i (some none)
  | _ => s

def destruct (i : ι) (s : State ι) : State ι := (destroy typeOf i s).setOps i none

/-- A `Task` is constructed where none is, and the other operations need one. -/
def act (s : State ι) : Action ι → Option (State ι)
  | .default i => if (s.ops i).isNone then some (s.setOps i (some none)) else none
  | .construct i => if (s.ops i).isNone then some (construct typeOf i s) else none
  | .moveConstruct i j =>
    if (s.ops i).isNone ∧ (s.ops j).isSome then some (moveConstruct typeOf i j s) else none
  | .moveAssign i j =>
    if (s.ops i).isSome ∧ (s.ops j).isSome then some (moveAssign typeOf i j s) else none
  | .invoke i throws => if (s.ops i).isSome then some (invoke typeOf i throws s) else none
  | .destruct i => if (s.ops i).isSome then some (destruct typeOf i s) else none

def machine : Machine (State ι) (Action ι) Empty where
  step s a := (act typeOf s a).map fun t => (t, [])

end Model

section Invariant

variable {ι : Type} {typeOf : ℕ → Fn} {s t : State ι} {own : ι → Option ℕ} {i j k : ι} {c : ℕ}

/-- Slot `i` has a `Task` that owns a callable, inline or through its pointer, or it owns none. -/
def Holds (typeOf : ℕ → Fn) (s : State ι) (i : ι) : Option ℕ → Prop
  | none => s.inside i = .nothing ∧ ∀ ops, s.ops i ≠ some (some ops)
  | some c =>
    s.inside i = .full c ∧ s.onHeap c = false ∧ s.ops i = some (some (.inlineOps (typeOf c))) ∨
      s.inside i = .nothing ∧ s.onHeap c = true ∧ s.storage i = .pointer c ∧
        s.ops i = some (some (.heapOps (typeOf c)))

structure Owned (typeOf : ℕ → Fn) (own : ι → Option ℕ) (s : State ι) : Prop where
  holds : ∀ i, Holds typeOf s i (own i)
  custody : Custody own s.born s.destroyed
  kept : ∀ c, s.onHeap c = true → ∃ i, own i = some c
  completed : ∀ c, s.completed c ≤ s.destroyed c
  fine : s.misused = false

theorem Holds.frame {o : Option ℕ} (h : Holds typeOf s i o) (hinside : t.inside i = s.inside i)
    (hops : t.ops i = s.ops i) (hstorage : t.storage i = s.storage i)
    (hheap : ∀ c, o = some c → t.onHeap c = s.onHeap c) : Holds typeOf t i o := by
  cases o with
  | none =>
    simp only [Holds] at h ⊢
    rwa [hinside, hops]
  | some c =>
    simp only [Holds] at h ⊢
    rwa [hinside, hops, hstorage, hheap c rfl]

theorem Holds.skip (h : Holds typeOf s i none) (f : Ops → State ι) :
    (match s.ops i with
      | some (some ops) => f ops
      | _ => s) = s := by
  split
  next ops hops => exact absurd hops (h.2 ops)
  next => rfl

theorem Holds.isSome (h : Holds typeOf s i (some c)) : (s.ops i).isSome = true := by
  obtain ⟨-, -, hops⟩ | ⟨-, -, -, hops⟩ := h
  · rw [hops]
    rfl
  · rw [hops]
    rfl

theorem Owned.initial : Owned typeOf (fun _ => none) ({} : State ι) where
  holds i := ⟨rfl, fun _ h => by cases h⟩
  custody := .empty ι
  kept _ h := by cases h
  completed _ := Nat.le_refl 0
  fine := rfl

variable [DecidableEq ι]

theorem Owned.setOps (h : Owned typeOf own s) (hi : own i = none) {o : Option (Option Ops)}
    (ho : ∀ ops, o ≠ some (some ops)) : Owned typeOf own (s.setOps i o) where
  holds k := by
    obtain rfl | hne := eq_or_ne k i
    · have hself : (s.setOps k o).ops k = o := Function.update_self ..
      have hk := h.holds k
      rw [hi] at hk ⊢
      refine ⟨hk.1, fun ops => ?_⟩
      rw [hself]
      exact ho ops
    · exact (h.holds k).frame rfl (Function.update_of_ne hne ..) rfl fun _ _ => rfl
  custody := h.custody
  kept := h.kept
  completed := h.completed
  fine := h.fine

theorem Owned.acquire (h : Owned typeOf own s) (hi : own i = none) :
    Owned typeOf (Function.update own i (some s.born)) (construct typeOf i s) := by
  have hempty := h.holds i
  rw [hi] at hempty
  have hfree : s.onHeap s.born = false := by
    by_contra htrue
    obtain ⟨k, hk⟩ := h.kept s.born (eq_true_of_ne_false htrue)
    exact Nat.lt_irrefl _ (h.custody.held k _ hk).1
  unfold construct
  simp only
  split_ifs
  · rw [State.newInside, if_pos hempty.1]
    refine ⟨fun k => ?_, h.custody.acquire hi, ?_, h.completed, h.fine⟩
    · obtain rfl | hne := eq_or_ne k i
      · rw [Function.update_self]
        exact .inl ⟨Function.update_self .., hfree, Function.update_self ..⟩
      · rw [Function.update_of_ne hne]
        exact (h.holds k).frame (Function.update_of_ne hne ..) (Function.update_of_ne hne ..)
          (Function.update_of_ne hne ..) fun _ _ => rfl
    · exact fun c hc => Custody.exists_update_some hi (h.kept c hc)
  · rw [State.newOnHeap, if_pos hempty.1]
    refine ⟨fun k => ?_, h.custody.acquire hi, ?_, h.completed, h.fine⟩
    · obtain rfl | hne := eq_or_ne k i
      · rw [Function.update_self]
        exact .inr ⟨hempty.1, Function.update_self .., Function.update_self .., Function.update_self ..⟩
      · rw [Function.update_of_ne hne]
        refine (h.holds k).frame rfl (Function.update_of_ne hne ..) (Function.update_of_ne hne ..) fun c hk => ?_
        exact Function.update_of_ne (Nat.ne_of_lt (h.custody.held k c hk).1) ..
    · intro c hc
      obtain rfl | hne := eq_or_ne c s.born
      · exact ⟨i, Function.update_self ..⟩
      · have hbefore : s.onHeap c = true := (Function.update_of_ne hne ..).symm.trans hc
        exact Custody.exists_update_some hi (h.kept c hbefore)

theorem Owned.release (h : Owned typeOf own s) (hi : own i = some c) (throws : Bool) :
    Owned typeOf (Function.update own i none)
      (((((s.called throws c).setInside i .nothing).setOnHeap c false).gone c).setOps i (some none)) := by
  have hzero : s.destroyed c = 0 := (h.custody.held i c hi).2
  constructor
  case holds =>
    intro k
    obtain rfl | hne := eq_or_ne k i
    · rw [Function.update_self]
      constructor
      · exact Function.update_self ..
      · intro ops
        change Function.update s.ops k (some none) k ≠ some (some ops)
        rw [Function.update_self]
        simp
    · rw [Function.update_of_ne hne]
      refine (h.holds k).frame (Function.update_of_ne hne ..) (Function.update_of_ne hne ..) rfl fun d hk => ?_
      have hdc : d ≠ c := by
        rintro rfl
        exact hne (h.custody.apart k i d hk hi)
      exact Function.update_of_ne hdc ..
  case custody => exact h.custody.release hi
  case kept =>
    intro d hd
    have hdc : d ≠ c := by
      rintro rfl
      change Function.update s.onHeap d false d = true at hd
      rw [Function.update_self] at hd
      cases hd
    have hbefore : s.onHeap d = true := (Function.update_of_ne hdc ..).symm.trans hd
    exact Custody.exists_update_none hi hdc (h.kept d hbefore)
  case completed =>
    intro d
    have hd := h.completed d
    change (if throws then s.completed else Function.update s.completed c (s.completed c + 1)) d ≤
      Function.update s.destroyed c (s.destroyed c + 1) d
    obtain rfl | hdc := eq_or_ne d c
    · rw [Function.update_self]
      split_ifs
      · omega
      · rw [Function.update_self]
        omega
    · rw [Function.update_of_ne hdc]
      split_ifs
      · exact hd
      · rwa [Function.update_of_ne hdc]
  case fine => exact h.fine

theorem setInside_self {o : Object} (h : s.inside i = o) : s.setInside i o = s := by
  rw [State.setInside, Function.update_eq_self_iff.mpr h.symm]

omit [DecidableEq ι] in
theorem setOnHeap_self {b : Bool} (h : s.onHeap c = b) : s.setOnHeap c b = s := by
  rw [State.setOnHeap, Function.update_eq_self_iff.mpr h.symm]

theorem destroy_eq (h : Holds typeOf s i (some c)) :
    destroy typeOf i s = (((s.setInside i .nothing).setOnHeap c false).gone c).setOps i (some none) := by
  unfold destroy
  obtain ⟨hinside, hheap, hops⟩ | ⟨hinside, hheap, hstorage, hops⟩ := h
  · rw [hops, setOnHeap_self (s := s.setInside i .nothing) hheap]
    simp only [Ops.destroy, State.destroyInside, hinside, if_true]
  · rw [hops, setInside_self hinside]
    simp only [Ops.destroy, hstorage, State.deleteOnHeap, hheap, and_self, if_true]

theorem invoke_eq (h : Holds typeOf s i (some c)) : invoke typeOf i false s =
    ((((s.called false c).setInside i .nothing).setOnHeap c false).gone c).setOps i (some none) := by
  unfold invoke
  obtain ⟨hinside, hheap, hops⟩ | ⟨hinside, hheap, hstorage, hops⟩ := h
  · have hcalled : (s.called false c).inside i = .full c := hinside
    rw [hops, setOnHeap_self (s := (s.called false c).setInside i .nothing) hheap]
    simp only [Ops.invoke, State.callInside, State.destroyInside, hinside, hcalled, if_true, Bool.false_eq_true,
      if_false]
  · have hcalled : (s.called false c).onHeap c = true := hheap
    rw [hops, setInside_self (s := s.called false c) hinside]
    simp only [Ops.invoke, hstorage, State.callOnHeap, State.deleteOnHeap, hheap, hcalled, and_self, if_true,
      Bool.false_eq_true, if_false]

theorem invoke_throws (h : Holds typeOf s i (some c)) : invoke typeOf i true s = s := by
  unfold invoke
  obtain ⟨hinside, hheap, hops⟩ | ⟨hinside, hheap, hstorage, hops⟩ := h
  · rw [hops]
    simp only [Ops.invoke, State.callInside, hinside, if_true]
    rfl
  · rw [hops]
    simp only [Ops.invoke, hstorage, State.callOnHeap, hheap, and_self, if_true]
    rfl

theorem Owned.destroy (h : Owned typeOf own s) (i : ι) :
    Owned typeOf (Function.update own i none) (Task.destroy typeOf i s) := by
  have hi := h.holds i
  cases hown : own i with
  | none =>
    rw [hown] at hi
    have hsame : Task.destroy typeOf i s = s := hi.skip _
    rwa [hsame, Function.update_eq_self_iff.mpr hown.symm]
  | some c =>
    rw [hown] at hi
    rw [destroy_eq hi]
    exact h.release hown true

theorem Owned.invoke (h : Owned typeOf own s) (i : ι) (throws : Bool) :
    ∃ own', Owned typeOf own' (Task.invoke typeOf i throws s) := by
  have hi := h.holds i
  cases hown : own i with
  | none =>
    rw [hown] at hi
    have hsame : Task.invoke typeOf i throws s = s := hi.skip _
    exact ⟨own, hsame.symm ▸ h⟩
  | some c =>
    rw [hown] at hi
    cases throws with
    | true => exact ⟨own, (invoke_throws hi).symm ▸ h⟩
    | false => exact ⟨_, (invoke_eq hi).symm ▸ h.release hown false⟩

/-- What a move does to the two slots: the object, if there is one, is now in the other. -/
theorem takeFrom_eq (h : Holds typeOf s j (some c)) (hi : s.inside i = .nothing) (hij : i ≠ j) :
    ∃ b, (s.inside j = .nothing → b = s.storage j) ∧ takeFrom typeOf i j s =
      { s with
        ops := Function.update (Function.update s.ops i (s.ops j)) j (some none)
        storage := Function.update s.storage i b
        inside := Function.update (Function.update s.inside j .nothing) i (s.inside j) } := by
  unfold takeFrom
  obtain ⟨hinside, -, hops⟩ | ⟨hinside, -, -, hops⟩ := h
  · refine ⟨.other, fun hnone => ?_, ?_⟩
    · rw [hinside] at hnone
      cases hnone
    · rw [hops, hinside]
      have hshell : Function.update (Function.update s.inside j (.shell c)) i (.full c) j = .shell c := by
        rw [Function.update_of_ne hij.symm, Function.update_self]
      have hinsides : Function.update (Function.update (Function.update s.inside j (.shell c)) i (.full c)) j .nothing =
          Function.update (Function.update s.inside j .nothing) i (.full c) := by
        rw [Function.update_comm hij, Function.update_idem]
      simp only [Ops.move, State.moveInside, hinside, hi, if_true]
      simp only [State.destroyInside, State.setStorage, State.setInside, hshell, if_true, hinsides]
      rfl
  · refine ⟨s.storage j, fun _ => rfl, ?_⟩
    have hj : Function.update s.inside j .nothing = s.inside := Function.update_eq_self_iff.mpr hinside.symm
    have hsame : Function.update s.inside i .nothing = s.inside := Function.update_eq_self_iff.mpr hi.symm
    rw [hops, hinside, hj, hsame]
    simp only [Ops.move, hi, if_true]
    rfl

theorem Owned.hand (h : Owned typeOf own s) (hj : own j = some c) (hi : own i = none) :
    Owned typeOf (Function.update (Function.update own j none) i (some c)) (takeFrom typeOf i j s) := by
  have hij : i ≠ j := by
    rintro rfl
    rw [hi] at hj
    cases hj
  have hempty := h.holds i
  rw [hi] at hempty
  have hheld := h.holds j
  rw [hj] at hheld
  obtain ⟨b, hb, heq⟩ := takeFrom_eq hheld hempty.1 hij
  rw [heq]
  constructor
  case holds =>
    intro k
    obtain rfl | hki := eq_or_ne k i
    · rw [Function.update_self]
      obtain ⟨hinside, hheap, hops⟩ | ⟨hinside, hheap, hstorage, hops⟩ := hheld
      · refine .inl ⟨?_, hheap, ?_⟩
        · exact (Function.update_self ..).trans hinside
        · exact (Function.update_of_ne hij ..).trans ((Function.update_self ..).trans hops)
      · refine .inr ⟨?_, hheap, ?_, ?_⟩
        · exact (Function.update_self ..).trans hinside
        · exact (Function.update_self ..).trans ((hb hinside).trans hstorage)
        · exact (Function.update_of_ne hij ..).trans ((Function.update_self ..).trans hops)
    · rw [Function.update_of_ne hki]
      obtain rfl | hkj := eq_or_ne k j
      · rw [Function.update_self]
        constructor
        · exact (Function.update_of_ne hki ..).trans (Function.update_self ..)
        · intro ops
          change Function.update (Function.update s.ops i (s.ops k)) k (some none) k ≠ some (some ops)
          rw [Function.update_self]
          simp
      · rw [Function.update_of_ne hkj]
        refine (h.holds k).frame ?_ ?_ (Function.update_of_ne hki ..) fun _ _ => rfl
        · exact (Function.update_of_ne hki ..).trans (Function.update_of_ne hkj ..)
        · exact (Function.update_of_ne hkj ..).trans (Function.update_of_ne hki ..)
  case custody => exact h.custody.hand hj hi
  case kept => exact fun d hd => Custody.exists_hand hj hi (h.kept d hd)
  case completed => exact h.completed
  case fine => exact h.fine

theorem Owned.takeFrom (h : Owned typeOf own s) (hi : own i = none) (j : ι) :
    ∃ own', Owned typeOf own' (Task.takeFrom typeOf i j s) := by
  cases hj : own j with
  | none =>
    have hempty := h.holds j
    rw [hj] at hempty
    have hsame : Task.takeFrom typeOf i j s = s := hempty.skip _
    exact ⟨own, hsame.symm ▸ h⟩
  | some c => exact ⟨_, h.hand hj hi⟩

theorem Owned.act {a : Action ι} (h : Owned typeOf own s) (ha : Task.act typeOf s a = some t) :
    ∃ own', Owned typeOf own' t := by
  have hnobody {i : ι} (hi : (s.ops i).isNone = true) : own i = none := by
    cases hown : own i with
    | none => rfl
    | some c =>
      have hheld := h.holds i
      rw [hown] at hheld
      have hsome := hheld.isSome
      rw [Option.isNone_iff_eq_none.mp hi] at hsome
      cases hsome
  cases a with
  | default i =>
    simp only [Task.act] at ha
    split_ifs at ha with hi
    obtain rfl := Option.some.inj ha
    exact ⟨own, h.setOps (hnobody hi) (by simp)⟩
  | construct i =>
    simp only [Task.act] at ha
    split_ifs at ha with hi
    obtain rfl := Option.some.inj ha
    exact ⟨_, h.acquire (hnobody hi)⟩
  | moveConstruct i j =>
    simp only [Task.act] at ha
    split_ifs at ha with hij
    obtain rfl := Option.some.inj ha
    have hi := hnobody hij.1
    exact (h.setOps hi (by simp)).takeFrom hi j
  | moveAssign i j =>
    simp only [Task.act] at ha
    split_ifs at ha with hij
    obtain rfl := Option.some.inj ha
    unfold moveAssign
    split_ifs with hself
    · exact ⟨own, h⟩
    · exact (h.destroy i).takeFrom (Function.update_self ..) j
  | invoke i throws =>
    simp only [Task.act] at ha
    split_ifs at ha with hi
    obtain rfl := Option.some.inj ha
    exact h.invoke i throws
  | destruct i =>
    simp only [Task.act] at ha
    split_ifs at ha with hi
    obtain rfl := Option.some.inj ha
    exact ⟨_, (h.destroy i).setOps (Function.update_self ..) (by simp)⟩

theorem Owned.of_run {h : Trace (Action ι) Empty} (hr : (machine typeOf).Run {} h s) : ∃ own, Owned typeOf own s := by
  apply hr.invariant (I := fun _ t => ∃ own, Owned typeOf own t)
  · exact ⟨_, .initial⟩
  · rintro k t a u es ⟨own, howned⟩ - hstep
    obtain ⟨v, hact, hv⟩ := Option.map_eq_some_iff.mp hstep
    cases hv
    exact howned.act hact

end Invariant

section Results

variable {ι : Type} [DecidableEq ι] {typeOf : ℕ → Fn} {s : State ι} {h : Trace (Action ι) Empty}

omit [DecidableEq ι] in
theorem destroyed_once_of_owned {own : ι → Option ℕ} (howned : Owned typeOf own s) (hnone : ∀ i, s.ops i = none) :
    ∀ c < s.born, s.destroyed c = 1 := by
  intro c hc
  obtain hone | ⟨i, hi⟩ := howned.custody.gone c hc
  · exact hone
  · have hheld := howned.holds i
    rw [hi] at hheld
    have hsome := hheld.isSome
    rw [hnone i] at hsome
    cases hsome

/-- No `Task` uses what is not there: `misused` stays unset. -/
theorem run_destroys_once (hr : (machine typeOf).Run {} h s) : s.misused = false ∧
    (∀ c, s.completed c ≤ 1 ∧ s.destroyed c ≤ 1) ∧ ((∀ i, s.ops i = none) → ∀ c < s.born, s.destroyed c = 1) := by
  obtain ⟨own, howned⟩ := Owned.of_run hr
  refine ⟨howned.fine, fun c => ?_, destroyed_once_of_owned howned⟩
  have hle := howned.custody.released_le_one c
  exact ⟨Nat.le_trans (howned.completed c) hle, hle⟩

/-- A callable on the heap and one inline. The first is moved, called in vain, assigned to itself and called again. -/
def twoCallables {ι : Type} (first second third : ι) : List (Action ι) :=
  [.construct first, .construct second, .moveConstruct third first, .invoke third true, .moveAssign third third,
    .invoke third false, .invoke third false, .moveAssign first second, .destruct first, .destruct second,
    .destruct third]

def sizes (c : ℕ) : Fn := ⟨if c = 0 then 64 else 8, 8, true⟩

theorem run_destroys_once_two : ∃ h, ∃ s : State (Fin 3), (machine sizes).Run {} h s ∧
    (s.born = 2 ∧ ∀ i, s.ops i = none) ∧ s.misused = false ∧ (∀ c, s.completed c ≤ 1 ∧ s.destroyed c ≤ 1) ∧
      ((∀ i, s.ops i = none) → ∀ c < s.born, s.destroyed c = 1) := by
  obtain ⟨h, s, hr, hs⟩ := Machine.exists_run (machine sizes) {}
    (fun _ s => s.born = 2 ∧ ∀ i, (s.ops i).isNone = true) (twoCallables (0 : Fin 3) 1 2) (by decide +kernel)
  exact ⟨h, s, hr, ⟨hs.1, fun i => Option.isNone_iff_eq_none.mp (hs.2 i)⟩, run_destroys_once hr⟩

end Results

end Klett.Cunk.Task
