import Klett.Sor.FixGateway

namespace Klett.Sor.FixGateway

open Klett.Lib FixedString Decimal

section Fields

inductive Delimiter
  | soh
  | pipe
  deriving DecidableEq

def Delimiter.byte : Delimiter → UInt8
  | soh => 1
  | pipe => 124

structure TagValue where
  tag : List UInt8
  value : List UInt8
  digits : ∀ b ∈ tag, isDigit 10 b = true
  clean : ∀ d : Delimiter, d.byte ∉ value

def TagValue.text (f : TagValue) : List UInt8 := f.tag ++ 61 :: f.value

variable (delim : Delimiter) (trailing : Bool)

def closing : List UInt8 := if trailing then [delim.byte] else []

def message (fields : List TagValue) : List UInt8 :=
  [delim.byte].intercalate (fields.map TagValue.text) ++ closing delim trailing

def lookup (fields : List TagValue) (tag : List UInt8) : Option (List UInt8) :=
  (fields.find? fun f => f.tag = tag).map TagValue.value

def behind (fields : List TagValue) : List UInt8 :=
  fields.flatMap (fun f => delim.byte :: f.text) ++ closing delim trailing

end Fields

section Search

variable {needle search s rest : List UInt8} {d : UInt8}

theorem afterFirst_absent (h : d ∉ s) : afterFirst (d :: search) s = none := by
  induction s with
  | nil => rfl
  | cons b s ih =>
    obtain ⟨hne, hs⟩ := not_or.mp (mt List.mem_cons.mpr h)
    have hb : ¬(d :: search).isPrefixOf (b :: s) = true := by
      rw [List.isPrefixOf_iff_prefix, List.cons_prefix_cons]
      exact fun hp => hne hp.1
    rw [afterFirst, if_neg hb]
    exact ih hs

theorem afterFirst_skip (h : d ∉ s) : afterFirst (d :: search) (s ++ rest) = afterFirst (d :: search) rest := by
  induction s with
  | nil => rfl
  | cons b s ih =>
    obtain ⟨hne, hs⟩ := not_or.mp (mt List.mem_cons.mpr h)
    have hb : ¬(d :: search).isPrefixOf (b :: (s ++ rest)) = true := by
      rw [List.isPrefixOf_iff_prefix, List.cons_prefix_cons]
      exact fun hp => hne hp.1
    rw [List.cons_append, afterFirst, if_neg hb]
    exact ih hs

theorem afterFirst_here (s rest : List UInt8) : afterFirst (d :: s) (d :: (s ++ rest)) = some rest := by
  have hp : (d :: s).isPrefixOf (d :: (s ++ rest)) = true := by
    rw [List.isPrefixOf_iff_prefix]
    exact ⟨rest, rfl⟩
  rw [afterFirst, if_pos hp, List.length_cons, List.drop_succ_cons, List.drop_left]

theorem afterFirst_next (h : ¬search <+: s) : afterFirst (d :: search) (d :: s) = afterFirst (d :: search) s := by
  have hp : ¬(d :: search).isPrefixOf (d :: s) = true := by
    rw [List.isPrefixOf_iff_prefix, List.cons_prefix_cons]
    exact fun hp => h hp.2
  rw [afterFirst, if_neg hp]

end Search

section Lookup

variable {delim : Delimiter} {trailing : Bool} {f : TagValue} {fields : List TagValue} {t rest : List UInt8}

theorem prefix_text_iff (ht : ∀ b ∈ t, isDigit 10 b = true) : t ++ [61] <+: f.text ++ rest ↔ f.tag = t := by
  have hfirst (s : List UInt8) (hs : ∀ b ∈ s, isDigit 10 b = true) (more : List UInt8) :
      (s ++ 61 :: more).takeWhile (isDigit 10) = s := by
    rw [List.takeWhile_append_of_pos hs, List.takeWhile_cons_of_neg (by decide), List.append_nil]
  constructor
  · rintro ⟨more, hmore⟩
    rw [List.append_assoc, TagValue.text, List.append_assoc] at hmore
    have hboth := congrArg (List.takeWhile (isDigit 10)) hmore
    rwa [List.singleton_append, List.cons_append, hfirst t ht, hfirst f.tag f.digits, eq_comm] at hboth
  · rintro rfl
    exact ⟨f.value ++ rest, by simp [TagValue.text]⟩

theorem not_mem_text (f : TagValue) (d : Delimiter) : d.byte ∉ f.text := by
  rw [TagValue.text, List.mem_append, List.mem_cons]
  rintro (h | h | h)
  · have hdigit := f.digits d.byte h
    cases d <;> exact absurd hdigit (by decide)
  · cases d <;> exact absurd h (by decide)
  · exact f.clean d h

theorem takeWhile_behind (f : TagValue) (fields : List TagValue) :
    (f.value ++ behind delim trailing fields).takeWhile (· ≠ delim.byte) = f.value := by
  have hclean : ∀ b ∈ f.value, decide (b ≠ delim.byte) = true := by
    intro b hb
    apply decide_eq_true
    rintro rfl
    exact f.clean delim hb
  have hrest : (behind delim trailing fields).takeWhile (· ≠ delim.byte) = [] := by
    cases fields with
    | nil => cases trailing <;> simp [behind, closing]
    | cons g fields => simp [behind]
  rw [List.takeWhile_append_of_pos hclean, hrest, List.append_nil]

theorem message_cons (f : TagValue) (fields : List TagValue) :
    message delim trailing (f :: fields) = f.text ++ behind delim trailing fields := by
  induction fields generalizing f with
  | nil => simp [message, behind]
  | cons g fields ih =>
    have hnext := ih g
    unfold message behind at hnext ⊢
    rw [List.map_cons, List.map_cons, List.intercalate_cons_cons, ← List.map_cons, List.append_assoc, List.append_assoc,
      hnext]
    simp

theorem afterFirst_behind (ht : ∀ b ∈ t, isDigit 10 b = true) (fields : List TagValue) :
    (afterFirst (delim.byte :: (t ++ [61])) (behind delim trailing fields)).map (List.takeWhile (· ≠ delim.byte)) =
      lookup fields t := by
  induction fields with
  | nil =>
    have hnone : afterFirst (delim.byte :: (t ++ [61])) (closing delim trailing) = none := by
      unfold closing
      split
      · rw [afterFirst_next (by simp)]
        rfl
      · rfl
    have hbehind : behind delim trailing [] = closing delim trailing := rfl
    rw [hbehind, hnone]
    rfl
  | cons g fields ih =>
    have hbehind : behind delim trailing (g :: fields) = delim.byte :: (g.text ++ behind delim trailing fields) := by
      simp [behind]
    rw [hbehind]
    by_cases htag : g.tag = t
    · have htext : g.text ++ behind delim trailing fields = t ++ [61] ++ (g.value ++ behind delim trailing fields) := by
        simp [TagValue.text, htag]
      rw [htext, afterFirst_here, Option.map_some, takeWhile_behind]
      simp [lookup, htag]
    · rw [afterFirst_next fun hp => htag ((prefix_text_iff ht).mp hp), afterFirst_skip (not_mem_text g delim), ih]
      simp [lookup, htag]

theorem not_prefix_nil (t : List UInt8) : ¬t ++ [61] <+: behind delim trailing [] := by
  intro hp
  have hmem : (61 : UInt8) ∈ behind delim trailing [] := hp.subset (by simp)
  cases delim <;> cases trailing <;> exact absurd hmem (by decide)

theorem valueBy_own (ht : ∀ b ∈ t, isDigit 10 b = true) (fields : List TagValue) :
    valueBy delim.byte (message delim trailing fields) (t ++ [61]) = lookup fields t := by
  unfold valueBy
  simp only [List.isPrefixOf_iff_prefix]
  cases fields with
  | nil =>
    have hmessage : message delim trailing [] = behind delim trailing [] := rfl
    rw [hmessage, if_neg (not_prefix_nil t)]
    exact afterFirst_behind ht []
  | cons f fields =>
    rw [message_cons]
    by_cases htag : f.tag = t
    · have htext : f.text ++ behind delim trailing fields = t ++ [61] ++ (f.value ++ behind delim trailing fields) := by
        simp [TagValue.text, htag]
      rw [if_pos ((prefix_text_iff ht).mpr htag), htext, List.drop_left, Option.map_some, takeWhile_behind]
      simp [lookup, htag]
    · rw [if_neg fun hp => htag ((prefix_text_iff ht).mp hp), afterFirst_skip (not_mem_text f delim),
        afterFirst_behind ht]
      simp [lookup, htag]

theorem not_mem_behind {other : Delimiter} (h : other ≠ delim) (fields : List TagValue) :
    other.byte ∉ behind delim trailing fields := by
  have hbyte : other.byte ≠ delim.byte := by cases other <;> cases delim <;> first | exact absurd rfl h | decide
  unfold behind
  rw [List.mem_append, List.mem_flatMap]
  rintro (⟨g, -, hg⟩ | hclosing)
  · obtain heq | hg := List.mem_cons.mp hg
    · exact hbyte heq
    · exact not_mem_text g other hg
  · unfold closing at hclosing
    split at hclosing
    · exact hbyte (List.mem_singleton.mp hclosing)
    · cases hclosing

/-- The search with the other delimiter finds the first field only, and takes the rest of the message for its value. -/
theorem valueBy_other {other : Delimiter} (h : other ≠ delim) (ht : ∀ b ∈ t, isDigit 10 b = true) (f : TagValue)
    (fields : List TagValue) : valueBy other.byte (message delim trailing (f :: fields)) (t ++ [61]) =
      if f.tag = t then some (f.value ++ behind delim trailing fields) else none := by
  have habsent : other.byte ∉ f.text ++ behind delim trailing fields := by
    rw [List.mem_append]
    exact not_or.mpr ⟨not_mem_text f other, not_mem_behind h fields⟩
  unfold valueBy
  simp only [List.isPrefixOf_iff_prefix]
  rw [message_cons]
  split_ifs with hp htag htag
  · have htext : f.text ++ behind delim trailing fields = t ++ [61] ++ (f.value ++ behind delim trailing fields) := by
      simp [TagValue.text, htag]
    rw [htext, List.mem_append] at habsent
    rw [htext, List.drop_left, Option.map_some, List.takeWhile_eq_self_iff.mpr]
    intro b hb
    apply decide_eq_true
    rintro rfl
    exact habsent (.inr hb)
  · exact absurd ((prefix_text_iff ht).mp hp) htag
  · exact absurd ((prefix_text_iff ht).mpr htag) hp
  · rw [afterFirst_absent habsent]
    rfl

theorem valueBy_other_nil {other : Delimiter} (h : other ≠ delim) (t : List UInt8) :
    valueBy other.byte (message delim trailing []) (t ++ [61]) = none := by
  have hmessage : message delim trailing [] = behind delim trailing [] := rfl
  unfold valueBy
  simp only [List.isPrefixOf_iff_prefix]
  rw [hmessage, if_neg (not_prefix_nil t), afterFirst_absent (not_mem_behind h [])]
  rfl

theorem behind_eq_nil_iff : behind delim trailing fields = [] ↔ fields = [] ∧ trailing = false := by
  cases fields with
  | nil => cases trailing <;> simp [behind, closing]
  | cons g fields => simp [behind]

end Lookup

section Main

variable {delim : Delimiter} {trailing : Bool} {fields : List TagValue} {t : String}

theorem getTag_eq (msg : List UInt8) (t : String) : getTag msg t =
    ((valueBy Delimiter.soh.byte msg (ascii t ++ [61])).or
      (valueBy Delimiter.pipe.byte msg (ascii t ++ [61]))).getD [] := by
  have hsearch : ascii (t ++ "=") = ascii t ++ [61] := by
    rw [ascii, String.toList_append, List.map_append]
    rfl
  unfold getTag
  rw [hsearch]
  rfl

theorem getTag_soh (ht : ∀ b ∈ ascii t, isDigit 10 b = true) (fields : List TagValue) :
    getTag (message .soh trailing fields) t = (lookup fields (ascii t)).getD [] := by
  have hother : Delimiter.pipe ≠ .soh := by decide
  rw [getTag_eq, valueBy_own ht]
  cases hfound : lookup fields (ascii t) with
  | some value => rfl
  | none =>
    cases fields with
    | nil => rw [valueBy_other_nil hother, Option.or_none]
    | cons f fields =>
      have htag : f.tag ≠ ascii t := by
        intro heq
        simp [lookup, heq] at hfound
      rw [valueBy_other hother ht, if_neg htag, Option.or_none]

/-- In a message with pipes the first field's value runs to the end of the message. -/
theorem getTag_pipe (ht : ∀ b ∈ ascii t, isDigit 10 b = true) (f : TagValue) (fields : List TagValue) :
    getTag (message .pipe trailing (f :: fields)) t =
      if f.tag = ascii t then f.value ++ behind .pipe trailing fields
      else (lookup (f :: fields) (ascii t)).getD [] := by
  have hother : Delimiter.soh ≠ .pipe := by decide
  rw [getTag_eq, valueBy_own ht, valueBy_other hother ht]
  split_ifs
  · rfl
  · rw [Option.none_or]

/-- The lookup is exact unless the first of several fields joined by pipes has the tag. -/
theorem getTag_exact_iff (delim : Delimiter) (trailing : Bool) (fields : List TagValue) (t : String)
    (ht : ∀ b ∈ ascii t, isDigit 10 b = true) :
    getTag (message delim trailing fields) t = (lookup fields (ascii t)).getD [] ↔
      delim = .soh ∨ ∀ f ∈ fields.head?, f.tag = ascii t → fields.length = 1 ∧ trailing = false := by
  cases delim with
  | soh => exact iff_of_true (getTag_soh ht fields) (.inl rfl)
  | pipe =>
    cases fields with
    | nil =>
      have hmissing : getTag (message .pipe trailing []) t = [] := by
        rw [getTag_eq, valueBy_own ht, valueBy_other_nil (by decide)]
        rfl
      exact iff_of_true hmissing (.inr fun f hf => absurd hf (Option.not_mem_none f))
    | cons f fields =>
      rw [getTag_pipe ht]
      simp only [reduceCtorEq, false_or, List.head?_cons, Option.mem_def, Option.some.injEq, forall_eq']
      split_ifs with htag
      · have hlookup : lookup (f :: fields) (ascii t) = some f.value := by simp [lookup, htag]
        rw [hlookup, Option.getD_some, List.append_right_eq_self, behind_eq_nil_iff]
        simp [htag]
      · exact iff_of_true rfl fun heq => absurd heq htag

def orderType : TagValue := ⟨ascii "35", ascii "D", List.all_eq_true.mp (by decide), by intro d; cases d <;> decide⟩

def clOrdIdSeven : TagValue := ⟨ascii "11", ascii "7", List.all_eq_true.mp (by decide), by intro d; cases d <;> decide⟩

theorem getTag_exact_soh :
    getTag (message .soh true [orderType, clOrdIdSeven]) "35" =
      (lookup [orderType, clOrdIdSeven] (ascii "35")).getD [] :=
  (getTag_exact_iff .soh true [orderType, clOrdIdSeven] "35" (List.all_eq_true.mp (by decide))).mpr (.inl rfl)

/-- The type of the message 35=D|11=7 reads as D|11=7. -/
theorem getTag_first_pipe :
    message .pipe false [orderType, clOrdIdSeven] = ascii "35=D|11=7" ∧
      lookup [orderType, clOrdIdSeven] (ascii "35") = some (ascii "D") ∧
      getTag (message .pipe false [orderType, clOrdIdSeven]) "35" = ascii "D|11=7" := by
  have hmessage : message .pipe false [orderType, clOrdIdSeven] = ascii "35=D|11=7" := by decide
  refine ⟨hmessage, by decide, ?_⟩
  rw [hmessage]
  decide

end Main

end Klett.Sor.FixGateway
