import Mathlib.Data.List.Infix

namespace Klett.Lib

inductive Verdict (μ : Type*) where
  | wait
  | reject
  | frame (size : ℕ) (message : μ)
deriving DecidableEq

/-- What the front of a buffer is read as. Only a wait can change when more arrives, and a frame is read from its own
bytes. -/
structure Framing (α μ : Type*) where
  front : List α → Verdict μ
  front_nil : front [] = .wait
  frame_bounds : ∀ {buf n m}, front buf = .frame n m → 0 < n ∧ n ≤ buf.length
  frame_take : ∀ {buf n m}, front buf = .frame n m → front (buf.take n) = .frame n m
  frame_append : ∀ {buf n m} more, front buf = .frame n m → front (buf ++ more) = .frame n m
  reject_append : ∀ {buf} more, front buf = .reject → front (buf ++ more) = .reject

namespace Framing

variable {α μ : Type*} (F : Framing α μ)

/-- The messages at the front of a buffer, and what stands behind them. -/
def scan (buf : List α) : List μ × List α :=
  match _ : F.front buf with
  | .frame n m =>
    let rest := scan (buf.drop n)
    (m :: rest.1, rest.2)
  | _ => ([], buf)
termination_by buf.length
decreasing_by
  have hn := F.frame_bounds ‹_›
  rw [List.length_drop]
  omega

variable {F} {buf : List α}

theorem scan_frame {n : ℕ} {m : μ} (h : F.front buf = .frame n m) :
    F.scan buf = (m :: (F.scan (buf.drop n)).1, (F.scan (buf.drop n)).2) := by
  rw [scan]
  split
  · rename_i heq
    obtain ⟨rfl, rfl⟩ := Verdict.frame.inj (h.symm.trans heq)
    rfl
  · rename_i hne
    exact absurd h (hne n m)

theorem scan_stop (h : ∀ n m, F.front buf ≠ .frame n m) : F.scan buf = ([], buf) := by
  rw [scan]
  split
  · rename_i n m heq
    exact absurd heq (h n m)
  · rfl

theorem scan_wait (h : F.front buf = .wait) : F.scan buf = ([], buf) :=
  scan_stop fun _ _ hf => nomatch h.symm.trans hf

theorem scan_reject (h : F.front buf = .reject) : F.scan buf = ([], buf) :=
  scan_stop fun _ _ hf => nomatch h.symm.trans hf

theorem scan_induction {motive : List α → Prop}
    (stop : ∀ buf, (∀ n m, F.front buf ≠ .frame n m) → motive buf)
    (step : ∀ buf n m, F.front buf = .frame n m → motive (buf.drop n) → motive buf) (buf : List α) : motive buf := by
  induction hlen : buf.length using Nat.strong_induction_on generalizing buf with
  | _ len ih =>
    by_cases h : ∃ n m, F.front buf = .frame n m
    · obtain ⟨n, m, h⟩ := h
      have hn := F.frame_bounds h
      apply step buf n m h
      apply ih (buf.drop n).length _ _ rfl
      rw [List.length_drop]
      omega
    · push Not at h
      exact stop buf h

theorem front_scan_snd (buf : List α) (n : ℕ) (m : μ) : F.front (F.scan buf).2 ≠ .frame n m := by
  induction buf using scan_induction (F := F) with
  | stop buf h =>
    rw [scan_stop h]
    exact h n m
  | step buf k l h ih =>
    rw [scan_frame h]
    exact ih

theorem scan_append (buf more : List α) : F.scan (buf ++ more) =
    ((F.scan buf).1 ++ (F.scan ((F.scan buf).2 ++ more)).1, (F.scan ((F.scan buf).2 ++ more)).2) := by
  induction buf using scan_induction (F := F) with
  | stop buf h => rw [scan_stop h, List.nil_append]
  | step buf n m h ih =>
    have hdrop : (buf ++ more).drop n = buf.drop n ++ more := List.drop_append_of_le_length (F.frame_bounds h).2
    rw [scan_frame (F.frame_append more h), scan_frame h, hdrop, ih, List.cons_append]

theorem exists_append_scan (buf : List α) :
    ∃ taken, buf = taken ++ (F.scan buf).2 ∧ F.scan taken = ((F.scan buf).1, []) := by
  induction buf using scan_induction (F := F) with
  | stop buf h =>
    rw [scan_stop h]
    exact ⟨[], rfl, scan_wait F.front_nil⟩
  | step buf n m h ih =>
    obtain ⟨taken, hbuf, htaken⟩ := ih
    have hframe := F.frame_append taken (F.frame_take h)
    have hdrop : (buf.take n ++ taken).drop n = taken := by
      have hn := (F.frame_bounds h).2
      rw [List.drop_append_of_le_length (by rw [List.length_take]; omega), List.drop_take, Nat.sub_self,
        List.take_zero, List.nil_append]
    rw [scan_frame h]
    refine ⟨buf.take n ++ taken, ?_, ?_⟩
    · rw [List.append_assoc, ← hbuf, List.take_append_drop]
    · rw [scan_frame hframe, hdrop, htaken]

variable (F)

structure Decoder (α μ : Type*) where
  buffer : List α := []
  messages : List μ := []

def kept (rest : List α) : List α :=
  match F.front rest with
  | .reject => []
  | _ => rest

/-- Bytes that cannot be read are thrown away with everything buffered behind them. -/
def feed (d : Decoder α μ) (chunk : List α) : Decoder α μ where
  buffer := F.kept (F.scan (d.buffer ++ chunk)).2
  messages := d.messages ++ (F.scan (d.buffer ++ chunk)).1

def decode (chunks : List (List α)) : Decoder α μ := chunks.foldl F.feed {}

variable {F}

theorem kept_reject {rest : List α} (h : F.front rest = .reject) : F.kept rest = [] := by
  rw [kept, h]

theorem kept_of_ne {rest : List α} (h : F.front rest ≠ .reject) : F.kept rest = rest := by
  rw [kept]
  split
  · contradiction
  · rfl

theorem foldl_feed_messages (chunks : List (List α)) (d : Decoder α μ) :
    chunks.foldl F.feed d =
      { buffer := (chunks.foldl F.feed { buffer := d.buffer }).buffer
        messages := d.messages ++ (chunks.foldl F.feed { buffer := d.buffer }).messages } := by
  induction chunks generalizing d with
  | nil => simp
  | cons chunk chunks ih =>
    rw [List.foldl_cons, ih, List.foldl_cons, ih (F.feed { buffer := d.buffer } chunk)]
    simp [feed]

theorem foldl_feed_of_front {buf : List α} (hbuf : F.front buf = .wait) (chunks : List (List α))
    (h : F.front (F.scan (buf ++ chunks.flatten)).2 ≠ .reject) :
    chunks.foldl F.feed { buffer := buf } =
      { buffer := (F.scan (buf ++ chunks.flatten)).2, messages := (F.scan (buf ++ chunks.flatten)).1 } := by
  induction chunks generalizing buf with
  | nil => rw [List.flatten_nil, List.append_nil, scan_wait hbuf, List.foldl_nil]
  | cons chunk chunks ih =>
    rw [List.flatten_cons, ← List.append_assoc, scan_append] at h ⊢
    have hne : F.front (F.scan (buf ++ chunk)).2 ≠ .reject := by
      intro hreject
      have happend := F.reject_append chunks.flatten hreject
      rw [scan_reject happend] at h
      exact h happend
    have hwait : F.front (F.scan (buf ++ chunk)).2 = .wait := by
      cases hfront : F.front (F.scan (buf ++ chunk)).2 with
      | wait => rfl
      | reject => exact absurd hfront hne
      | frame n m => exact absurd hfront (front_scan_snd _ n m)
    rw [List.foldl_cons, foldl_feed_messages]
    simp only [feed, kept_of_ne hne, List.nil_append, ih hwait h]

theorem decode_of_front {chunks : List (List α)} (h : F.front (F.scan chunks.flatten).2 ≠ .reject) :
    F.decode chunks = { buffer := (F.scan chunks.flatten).2, messages := (F.scan chunks.flatten).1 } :=
  foldl_feed_of_front F.front_nil chunks h

theorem foldl_feed_of_reject {buf : List α} (hbuf : F.front buf = .wait) (chunks : List (List α))
    (h : F.front (F.scan (buf ++ chunks.flatten)).2 = .reject) :
    ∃ k chunks', F.front ((F.scan (buf ++ chunks.flatten)).2.take k) = .reject ∧
      chunks'.flatten = (F.scan (buf ++ chunks.flatten)).2.drop k ∧
      (chunks.foldl F.feed { buffer := buf }).messages =
        (F.scan (buf ++ chunks.flatten)).1 ++ (F.decode chunks').messages := by
  induction chunks generalizing buf with
  | nil =>
    rw [List.flatten_nil, List.append_nil, scan_wait hbuf, hbuf] at h
    exact nomatch h
  | cons chunk chunks ih =>
    rw [List.flatten_cons, ← List.append_assoc, scan_append] at h ⊢
    rw [List.foldl_cons, foldl_feed_messages]
    cases hfront : F.front (F.scan (buf ++ chunk)).2 with
    | frame n m => exact absurd hfront (front_scan_snd _ n m)
    | wait =>
      have hne : F.front (F.scan (buf ++ chunk)).2 ≠ .reject := by
        rw [hfront]
        exact nofun
      obtain ⟨k, chunks', hk, hflat, hmessages⟩ := ih hfront h
      apply Exists.intro k
      refine ⟨chunks', hk, hflat, ?_⟩
      simp only [feed, kept_of_ne hne, List.nil_append, hmessages, List.append_assoc]
    | reject =>
      have happend := F.reject_append chunks.flatten hfront
      rw [scan_reject happend]
      refine ⟨(F.scan (buf ++ chunk)).2.length, chunks, ?_, ?_, ?_⟩
      · rwa [List.take_left]
      · rw [List.drop_left]
      · simp only [feed, kept_reject hfront, List.nil_append, List.append_nil, decode]

theorem decode_of_reject {chunks : List (List α)} (h : F.front (F.scan chunks.flatten).2 = .reject) :
    ∃ k chunks', F.front ((F.scan chunks.flatten).2.take k) = .reject ∧
      chunks'.flatten = (F.scan chunks.flatten).2.drop k ∧
      (F.decode chunks).messages = (F.scan chunks.flatten).1 ++ (F.decode chunks').messages :=
  foldl_feed_of_reject F.front_nil chunks h

theorem scan_prefix_decode (chunks : List (List α)) :
    (F.scan chunks.flatten).1 <+: (F.decode chunks).messages := by
  by_cases h : F.front (F.scan chunks.flatten).2 = .reject
  · obtain ⟨k, chunks', -, -, hmessages⟩ := decode_of_reject h
    rw [hmessages]
    exact List.prefix_append _ _
  · rw [decode_of_front h]

theorem pos_of_front_take {r : List α} {k : ℕ} (h : F.front (r.take k) = .reject) : 0 < k := by
  apply Nat.pos_of_ne_zero
  rintro rfl
  rw [List.take_zero, F.front_nil] at h
  exact nomatch h

theorem front_of_take {r : List α} {k : ℕ} (h : F.front (r.take k) = .reject) : F.front r = .reject := by
  have happend := F.reject_append (r.drop k) h
  rwa [List.take_append_drop] at happend

theorem frameless_drop {s : List α} {k : ℕ}
    (h : ∀ k n m, F.front (s.take k) = .reject → F.front (s.drop k) ≠ .frame n m) (hk : F.front (s.take k) = .reject)
    (l n : ℕ) (m : μ) : F.front ((s.drop k).drop l) ≠ .frame n m := by
  rw [List.drop_drop]
  apply h
  rw [List.take_add]
  exact F.reject_append _ hk

theorem decode_messages_eq_nil {chunks : List (List α)}
    (hframe : ∀ n m, F.front chunks.flatten ≠ .frame n m)
    (h : ∀ k n m, F.front (chunks.flatten.take k) = .reject → F.front (chunks.flatten.drop k) ≠ .frame n m) :
    (F.decode chunks).messages = [] := by
  induction hlen : chunks.flatten.length using Nat.strong_induction_on generalizing chunks with
  | _ len ih =>
    have hscan := scan_stop hframe
    by_cases hreject : F.front chunks.flatten = .reject
    · have hfront : F.front (F.scan chunks.flatten).2 = .reject := by rwa [hscan]
      obtain ⟨k, chunks', hk, hflat, hmessages⟩ := decode_of_reject hfront
      rw [hscan] at hk hflat hmessages
      have hpos := pos_of_front_take hk
      have hnil : chunks.flatten ≠ [] := by
        intro hnil
        rw [hnil, F.front_nil] at hreject
        exact nomatch hreject
      have hlt : chunks'.flatten.length < len := by
        have := List.length_pos_of_ne_nil hnil
        rw [hflat, List.length_drop, ← hlen]
        dsimp only
        omega
      rw [hmessages, List.nil_append]
      apply ih _ hlt _ _ rfl
      · rw [hflat]
        exact fun n m => h k n m hk
      · rw [hflat]
        exact fun l n m _ => frameless_drop h hk l n m
    · rw [decode_of_front (by rwa [hscan]), hscan]

/-- Two ways of cutting agree on every stream but those where a frame begins behind bytes that may be all that is
thrown away. -/
theorem decode_uniform_iff (stream : List α) :
    (∀ cs ds : List (List α), cs.flatten = stream → ds.flatten = stream →
      (F.decode cs).messages = (F.decode ds).messages) ↔
      ∀ k n m, F.front ((F.scan stream).2.take k) = .reject → F.front ((F.scan stream).2.drop k) ≠ .frame n m := by
  constructor
  · intro huniform k n m hk hframe
    obtain ⟨taken, hstream, htaken⟩ := exists_append_scan (F := F) stream
    generalize F.scan stream = scanned at *
    obtain ⟨ms, r⟩ := scanned
    dsimp only at *
    have hfirst (front : List α) (h : F.front front = .reject) :
        F.feed {} (taken ++ front) = { buffer := [], messages := ms } := by
      simp [feed, scan_append, htaken, scan_reject h, kept_reject h]
    have hwhole := hfirst r (front_of_take hk)
    have hcut := hfirst (r.take k) hk
    have hsame := huniform [taken ++ r] [taken ++ r.take k, r.drop k] (by simp [hstream]) (by simp [hstream])
    simp only [decode, List.foldl_cons, List.foldl_nil, hwhole, hcut] at hsame
    simp [feed, scan_frame hframe] at hsame
  · intro h
    have hall : ∀ cs : List (List α), cs.flatten = stream → (F.decode cs).messages = (F.scan stream).1 := by
      rintro cs rfl
      by_cases hreject : F.front (F.scan cs.flatten).2 = .reject
      · obtain ⟨k, cs', hk, hflat, hmessages⟩ := decode_of_reject hreject
        rw [hmessages, decode_messages_eq_nil, List.append_nil]
        · rw [hflat]
          exact fun n m => h k n m hk
        · rw [hflat]
          exact fun l n m _ => frameless_drop h hk l n m
      · rw [decode_of_front hreject]
    intro cs ds hcs hds
    rw [hall cs hcs, hall ds hds]

end Framing

end Klett.Lib
