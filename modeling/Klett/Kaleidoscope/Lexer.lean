import Klett.Lib.Decimal

namespace Klett.Kaleidoscope

open Klett.Lib.Decimal

section Model

def isAlpha (c : UInt8) : Bool := (65 ≤ c && c ≤ 90) || (97 ≤ c && c ≤ 122)

def isAlnum (c : UInt8) : Bool := isAlpha c || isDigit 10 c

def isNumeric (c : UInt8) : Bool := isDigit 10 c || c = 46

def inComment (c : UInt8) : Bool := c ≠ 10 && c ≠ 13

def tokEof : ℤ := -1
def tokDef : ℤ := -2
def tokExtern : ℤ := -3
def tokIdentifier : ℤ := -4
def tokNumber : ℤ := -5

/-- The static and global variables, with what is left to read; `lastChar` is nothing at the end of the file. -/
structure Lexer (V : Type) where
  lastChar : Option UInt8
  input : List UInt8
  identifierStr : List UInt8
  numVal : V

variable {V : Type}

namespace Lexer

def getchar (s : Lexer V) : Lexer V := { s with lastChar := s.input.head?, input := s.input.tail }

def text (s : Lexer V) : List UInt8 := s.lastChar.toList ++ s.input

/-- Reads on while the last character is of a kind, and keeps what it read. -/
def readWhile (p : UInt8 → Bool) (s : Lexer V) : List UInt8 × Lexer V :=
  match s with
  | ⟨none, input, ident, num⟩ => ([], ⟨none, input, ident, num⟩)
  | ⟨some c, [], ident, num⟩ => if p c then ([c], ⟨none, [], ident, num⟩) else ([], ⟨some c, [], ident, num⟩)
  | ⟨some c, d :: input, ident, num⟩ =>
    if p c then
      let (text, s) := readWhile p ⟨some d, input, ident, num⟩
      (c :: text, s)
    else ([], ⟨some c, d :: input, ident, num⟩)
termination_by s.input

theorem text_getchar (s : Lexer V) : s.getchar.text = s.input := by
  rw [getchar, text]
  cases s.input <;> rfl

theorem text_readWhile (p : UInt8 → Bool) (s : Lexer V) : (s.readWhile p).1 ++ (s.readWhile p).2.text = s.text := by
  fun_induction readWhile p s <;> simp_all [text]

theorem length_readWhile (p : UInt8 → Bool) (s : Lexer V) : (s.readWhile p).2.text.length ≤ s.text.length := by
  rw [← text_readWhile p s, List.length_append]
  exact Nat.le_add_left _ _

theorem length_input (p : UInt8 → Bool) {s : Lexer V} {c : UInt8} (hc : (s.readWhile p).2.lastChar = some c) :
    (s.readWhile p).2.input.length < s.text.length := by
  have hle := length_readWhile p s
  rw [text, hc, List.length_append] at hle
  exact Nat.lt_of_succ_le (Nat.succ_eq_one_add _ ▸ hle)

theorem length_scan (p q : UInt8 → Bool) {s : Lexer V} {c : UInt8} (hc : (s.readWhile p).2.lastChar = some c) :
    ((s.readWhile p).2.getchar.readWhile q).2.text.length < s.text.length := by
  apply (length_readWhile q _).trans_lt
  rw [text_getchar]
  exact length_input p hc

end Lexer

variable (strtod : List UInt8 → V)

def gettok (s : Lexer V) : ℤ × Lexer V :=
  let skipped := (s.readWhile isSpace).2
  match _hc : skipped.lastChar with
  | none => (tokEof, skipped)
  | some c =>
    if isAlpha c then
      let (text, s) := skipped.getchar.readWhile isAlnum
      let s := { s with identifierStr := c :: text }
      if s.identifierStr = [100, 101, 102] then (tokDef, s)
      else if s.identifierStr = [101, 120, 116, 101, 114, 110] then (tokExtern, s)
      else (tokIdentifier, s)
    else if isNumeric c then
      let (text, s) := skipped.getchar.readWhile isNumeric
      (tokNumber, { s with numVal := strtod (c :: text) })
    else if c = 35 then
      let s := (skipped.getchar.readWhile inComment).2
      if s.lastChar = none then (tokEof, s) else gettok s
    else (c.toNat, skipped.getchar)
termination_by s.text.length
decreasing_by exact Lexer.length_scan _ _ _hc

theorem gettok_length (s : Lexer V) : (gettok strtod s).2.text.length ≤ s.text.length ∧
    ((gettok strtod s).1 ≠ tokEof → (gettok strtod s).2.text.length < s.text.length) := by
  have after {s s' : Lexer V} {code : ℤ} (hlt : s'.text.length < s.text.length) :
      s'.text.length ≤ s.text.length ∧ (code ≠ tokEof → s'.text.length < s.text.length) := ⟨hlt.le, fun _ => hlt⟩
  have word {s t s' : Lexer V} {c : UInt8} {read : List UInt8} {q : UInt8 → Bool}
      (hc : (s.readWhile isSpace).2.lastChar = some c) (ht : (s.readWhile isSpace).2.getchar.readWhile q = (read, t))
      (hs' : s'.text = t.text) : s'.text.length < s.text.length := by
    have hlt := Lexer.length_scan isSpace q hc
    rwa [ht, ← hs'] at hlt
  fun_induction gettok strtod s with
  | case1 s skipped hc => exact ⟨Lexer.length_readWhile _ _, fun h => absurd rfl h⟩
  | case2 s skipped c hc halpha text s' hs' _ _ => exact after (word hc hs' rfl)
  | case3 s skipped c hc halpha text s' hs' _ _ _ => exact after (word hc hs' rfl)
  | case4 s skipped c hc halpha text s' hs' _ _ _ => exact after (word hc hs' rfl)
  | case5 s skipped c hc halpha hnumeric text s' hs' => exact after (word hc hs' rfl)
  | case6 s skipped s' hend hc _ _ => exact ⟨(Lexer.length_scan isSpace inComment hc).le, fun h => absurd rfl h⟩
  | case7 s skipped s' hend hc _ _ ih =>
    have hlt := Lexer.length_scan isSpace inComment hc
    exact ⟨ih.1.trans hlt.le, fun h => (ih.2 h).trans hlt⟩
  | case8 s skipped c hc _ _ _ =>
    apply after
    rw [Lexer.text_getchar]
    exact Lexer.length_input isSpace hc

/-- What the parser learns from a call: the code, and the global variable that goes with it. -/
inductive Token (V : Type) where
  | define
  | external
  | identifier (name : List UInt8)
  | number (value : V)
  | character (c : UInt8)

def tokenOf (code : ℤ) (s : Lexer V) : Option (Token V) :=
  if code = tokEof then none
  else if code = tokDef then some .define
  else if code = tokExtern then some .external
  else if code = tokIdentifier then some (.identifier s.identifierStr)
  else if code = tokNumber then some (.number s.numVal)
  else some (.character code.toNat.toUInt8)

/-- The calls up to the one that finds the end of the file. -/
def tokens (s : Lexer V) : List (Token V) :=
  match _ht : tokenOf (gettok strtod s).1 (gettok strtod s).2 with
  | none => []
  | some token => token :: tokens (gettok strtod s).2
termination_by s.text.length
decreasing_by
  apply (gettok_length strtod s).2
  intro heq
  rw [tokenOf, if_pos heq] at _ht
  cases _ht

/-- The static variable starts as a blank. -/
def start (input : List UInt8) (numVal : V) : Lexer V where
  lastChar := some 32
  input := input
  identifierStr := []
  numVal := numVal

end Model

section Grammar

variable {V : Type} (strtod : List UInt8 → V)

/-- Blanks, and comments up to the end of their line. -/
inductive Gap : List UInt8 → Prop
  | nil : Gap []
  | space {c : UInt8} {rest : List UInt8} : isSpace c = true → Gap rest → Gap (c :: rest)
  | comment {body rest : List UInt8} {c : UInt8} : (∀ d ∈ body, inComment d = true) → inComment c = false → Gap rest →
      Gap (35 :: (body ++ c :: rest))

/-- What may stand behind the last token: a comment need not end. -/
inductive Trailing : List UInt8 → Prop
  | gap {gap : List UInt8} : Gap gap → Trailing gap
  | comment {gap body : List UInt8} : Gap gap → (∀ d ∈ body, inComment d = true) → Trailing (gap ++ 35 :: body)

inductive Spells : Token V → List UInt8 → Prop
  | define : Spells .define [100, 101, 102]
  | external : Spells .external [101, 120, 116, 101, 114, 110]
  | identifier {c : UInt8} {name : List UInt8} : isAlpha c = true → (∀ d ∈ name, isAlnum d = true) →
      c :: name ≠ [100, 101, 102] → c :: name ≠ [101, 120, 116, 101, 114, 110] → Spells (.identifier (c :: name)) (c :: name)
  | number {c : UInt8} {digits : List UInt8} : isNumeric c = true → (∀ d ∈ digits, isNumeric d = true) →
      Spells (.number (strtod (c :: digits))) (c :: digits)
  | character {c : UInt8} : isSpace c = false → isAlpha c = false → isNumeric c = false → c ≠ 35 →
      Spells (.character c) [c]

/-- The characters that would lengthen a token. -/
def Token.continues : Token V → UInt8 → Bool
  | .define => isAlnum
  | .external => isAlnum
  | .identifier _ => isAlnum
  | .number _ => isNumeric
  | .character _ => fun _ => false

inductive Renders : List (Token V) → List UInt8 → Prop
  | nil {text : List UInt8} : Trailing text → Renders [] text
  | cons {token : Token V} {rest : List (Token V)} {gap word text : List UInt8} : Gap gap → Spells strtod token word →
      (∀ c ∈ text.head?, token.continues c = false) → Renders rest text → Renders (token :: rest) (gap ++ (word ++ text))

end Grammar

section Calls

variable {V : Type} {strtod : List UInt8 → V} {text rest gap word body : List UInt8} {ident : List UInt8} {num : V}
  {c : UInt8} {token : Token V}

/-- The lexer before a text, of which it has read the first character ahead. -/
def Lexer.reading (text ident : List UInt8) (num : V) : Lexer V where
  lastChar := text.head?
  input := text.tail
  identifierStr := ident
  numVal := num

theorem getchar_reading : (Lexer.reading (c :: text) ident num).getchar = Lexer.reading text ident num := rfl

theorem readWhile_reading (p : UInt8 → Bool) : (Lexer.reading text ident num).readWhile p =
    (text.takeWhile p, Lexer.reading (text.dropWhile p) ident num) := by
  induction text with
  | nil => rw [Lexer.reading, List.head?_nil, Lexer.readWhile]; rfl
  | cons c text ih =>
    cases text with
    | nil =>
      rw [Lexer.reading, List.head?_cons, List.tail_cons, Lexer.readWhile]
      cases hc : p c <;> simp [hc, Lexer.reading]
    | cons d text =>
      rw [Lexer.reading, List.head?_cons, List.tail_cons, Lexer.readWhile]
      rw [Lexer.reading, List.head?_cons, List.tail_cons] at ih
      cases hc : p c
      · simp [hc, Lexer.reading]
      · simp [hc, ih]

theorem takeWhile_append_stop {p : UInt8 → Bool} (hword : ∀ d ∈ word, p d = true) (hstop : ∀ d ∈ text.head?, p d = false) :
    (word ++ text).takeWhile p = word ∧ (word ++ text).dropWhile p = text := by
  rw [List.takeWhile_append_of_pos hword, List.dropWhile_append_of_pos hword]
  cases text with
  | nil => simp
  | cons d text => simp [hstop d rfl]

theorem gettok_blank {s : Lexer V} (h : (s.readWhile isSpace).2.lastChar = none) :
    gettok strtod s = (tokEof, (s.readWhile isSpace).2) := by
  rw [gettok.eq_def]
  dsimp only
  split
  · rfl
  · next c hc => cases h.symm.trans hc

theorem gettok_at {s : Lexer V} (h : (s.readWhile isSpace).2.lastChar = some c) : gettok strtod s =
    if isAlpha c then
      let (text, s) := (s.readWhile isSpace).2.getchar.readWhile isAlnum
      let s := { s with identifierStr := c :: text }
      if s.identifierStr = [100, 101, 102] then (tokDef, s)
      else if s.identifierStr = [101, 120, 116, 101, 114, 110] then (tokExtern, s)
      else (tokIdentifier, s)
    else if isNumeric c then
      let (text, s) := (s.readWhile isSpace).2.getchar.readWhile isNumeric
      (tokNumber, { s with numVal := strtod (c :: text) })
    else if c = 35 then
      let s := ((s.readWhile isSpace).2.getchar.readWhile inComment).2
      if s.lastChar = none then (tokEof, s) else gettok strtod s
    else (c.toNat, (s.readWhile isSpace).2.getchar) := by
  conv_lhs => rw [gettok.eq_def]
  dsimp only
  split
  · next hc => cases h.symm.trans hc
  · next d hd =>
    obtain rfl : d = c := Option.some.inj (hd.symm.trans h)
    rfl

theorem gettok_congr {s s' : Lexer V} (h : (s.readWhile isSpace).2 = (s'.readWhile isSpace).2) :
    gettok strtod s = gettok strtod s' := by
  cases hlast : (s.readWhile isSpace).2.lastChar with
  | none => rw [gettok_blank hlast, gettok_blank (h ▸ hlast), h]
  | some c => rw [gettok_at hlast, gettok_at (h ▸ hlast), h]

theorem gettok_space (hc : isSpace c = true) :
    gettok strtod (Lexer.reading (c :: text) ident num) = gettok strtod (Lexer.reading text ident num) := by
  apply gettok_congr
  rw [readWhile_reading, readWhile_reading, List.dropWhile_cons_of_pos hc]

theorem skipped_reading (hc : isSpace c = false) :
    ((Lexer.reading (c :: text) ident num).readWhile isSpace).2 = Lexer.reading (c :: text) ident num := by
  rw [readWhile_reading, List.dropWhile_cons_of_neg (Bool.eq_false_iff.mp hc)]

theorem gettok_reading (hc : isSpace c = false) : gettok strtod (Lexer.reading (c :: text) ident num) =
    if isAlpha c then
      let name := c :: text.takeWhile isAlnum
      let s := Lexer.reading (text.dropWhile isAlnum) name num
      if name = [100, 101, 102] then (tokDef, s)
      else if name = [101, 120, 116, 101, 114, 110] then (tokExtern, s)
      else (tokIdentifier, s)
    else if isNumeric c then
      (tokNumber, Lexer.reading (text.dropWhile isNumeric) ident (strtod (c :: text.takeWhile isNumeric)))
    else if c = 35 then
      let s := Lexer.reading (text.dropWhile inComment) ident num
      if text.dropWhile inComment = [] then (tokEof, s) else gettok strtod s
    else (c.toNat, Lexer.reading text ident num) := by
  have hlast : ((Lexer.reading (c :: text) ident num).readWhile isSpace).2.lastChar = some c := by
    rw [skipped_reading hc]
    rfl
  rw [gettok_at hlast, skipped_reading hc, getchar_reading]
  simp only [readWhile_reading]
  have hend : (Lexer.reading (text.dropWhile inComment) ident num).lastChar = none ↔ text.dropWhile inComment = [] :=
    List.head?_eq_none_iff
  simp only [hend]
  rfl

theorem isSpace_of_isAlpha (hc : isAlpha c = true) : isSpace c = false := by
  simp only [isAlpha, Bool.or_eq_true, Bool.and_eq_true, decide_eq_true_eq, UInt8.le_iff_toNat_le,
    UInt8.reduceToNat] at hc
  simp only [isSpace, Bool.or_eq_false_iff, Bool.and_eq_false_iff, decide_eq_false_iff_not,
    UInt8.le_iff_toNat_le, UInt8.reduceToNat, ← UInt8.toNat_inj]
  omega

theorem toNat_of_isNumeric (hc : isNumeric c = true) : 46 ≤ c.toNat ∧ c.toNat ≤ 57 := by
  rw [isNumeric, Bool.or_eq_true] at hc
  rcases hc with hdigit | hdot
  · obtain ⟨hlow, hhigh⟩ := toNat_of_isDigit hdigit
    omega
  · rw [of_decide_eq_true hdot]
    decide

theorem isSpace_of_isNumeric (hc : isNumeric c = true) : isSpace c = false := by
  obtain ⟨hlow, -⟩ := toNat_of_isNumeric hc
  simp only [isSpace, Bool.or_eq_false_iff, Bool.and_eq_false_iff, decide_eq_false_iff_not,
    UInt8.le_iff_toNat_le, UInt8.reduceToNat, ← UInt8.toNat_inj]
  omega

theorem isAlpha_of_isNumeric (hc : isNumeric c = true) : isAlpha c = false := by
  obtain ⟨-, hhigh⟩ := toNat_of_isNumeric hc
  simp only [isAlpha, Bool.or_eq_false_iff, Bool.and_eq_false_iff, decide_eq_false_iff_not,
    UInt8.le_iff_toNat_le, UInt8.reduceToNat]
  omega

theorem isSpace_of_inComment (hc : inComment c = false) : isSpace c = true := by
  simp only [inComment, Bool.and_eq_false_iff, decide_eq_false_iff_not, not_not] at hc
  rcases hc with rfl | rfl <;> decide

theorem gettok_gap (hgap : Gap gap) :
    gettok strtod (Lexer.reading (gap ++ text) ident num) = gettok strtod (Lexer.reading text ident num) := by
  induction hgap with
  | nil => rfl
  | space hc _ ih => rw [List.cons_append, gettok_space hc, ih]
  | @comment body rest c hbody hc _ ih =>
    have hstop : ∀ d ∈ (c :: (rest ++ text)).head?, inComment d = false := by
      rintro d ⟨⟩
      exact hc
    have hdrop : (body ++ c :: (rest ++ text)).dropWhile inComment = c :: (rest ++ text) :=
      (takeWhile_append_stop hbody hstop).2
    have hsharp : isAlpha 35 = false ∧ isNumeric 35 = false := by decide
    rw [List.cons_append, List.append_assoc, List.cons_append, gettok_reading (by decide)]
    simp only [hsharp, Bool.false_eq_true, if_false, if_true, hdrop, reduceCtorEq]
    rw [gettok_space (isSpace_of_inComment hc), ih]

theorem gettok_trailing (h : Trailing text) :
    gettok strtod (Lexer.reading text ident num) = (tokEof, Lexer.reading [] ident num) := by
  have hnil : gettok strtod (Lexer.reading [] ident num) = (tokEof, Lexer.reading [] ident num) := by
    have hlast : ((Lexer.reading [] ident num).readWhile isSpace).2.lastChar = none := by
      rw [readWhile_reading]
      rfl
    rw [gettok_blank hlast, readWhile_reading]
    rfl
  cases h with
  | gap hgap =>
    have hskip := @gettok_gap _ strtod [] _ ident num hgap
    rw [List.append_nil] at hskip
    rw [hskip, hnil]
  | @comment gap body hgap hbody =>
    have hdrop : body.dropWhile inComment = [] := List.dropWhile_eq_nil_iff.mpr hbody
    have hsharp : isAlpha 35 = false ∧ isNumeric 35 = false := by decide
    rw [gettok_gap hgap, gettok_reading (by decide)]
    simp only [hsharp, Bool.false_eq_true, if_false, if_true, hdrop]

/-- A word that the text behind it does not lengthen is one call. -/
theorem gettok_word (hword : Spells strtod token word) (hstop : ∀ c ∈ text.head?, token.continues c = false) :
    ∃ code ident' num', gettok strtod (Lexer.reading (word ++ text) ident num) = (code, Lexer.reading text ident' num') ∧
      tokenOf code (Lexer.reading text ident' num') = some token := by
  have keyword (name : List UInt8) (hname : ∀ d ∈ name, isAlnum d = true)
      (hstop : ∀ d ∈ text.head?, isAlnum d = false) :
      (name ++ text).takeWhile isAlnum = name ∧ (name ++ text).dropWhile isAlnum = text :=
    takeWhile_append_stop hname hstop
  cases hword with
  | define =>
    obtain ⟨htake, hdrop⟩ := keyword [101, 102] (List.all_eq_true.mp rfl) hstop
    refine ⟨tokDef, [100, 101, 102], num, ?_, rfl⟩
    rw [List.cons_append, gettok_reading (by decide), if_pos (by decide), htake, hdrop]
    rfl
  | external =>
    obtain ⟨htake, hdrop⟩ := keyword [120, 116, 101, 114, 110] (List.all_eq_true.mp rfl) hstop
    refine ⟨tokExtern, [101, 120, 116, 101, 114, 110], num, ?_, rfl⟩
    rw [List.cons_append, gettok_reading (by decide), if_pos (by decide), htake, hdrop]
    rfl
  | @identifier c name hc hname hdefine hexternal =>
    obtain ⟨htake, hdrop⟩ := keyword name hname hstop
    refine ⟨tokIdentifier, c :: name, num, ?_, rfl⟩
    rw [List.cons_append, gettok_reading (isSpace_of_isAlpha hc), if_pos hc, htake, hdrop]
    simp only [if_neg hdefine, if_neg hexternal]
  | @number c digits hc hdigits =>
    obtain ⟨htake, hdrop⟩ := takeWhile_append_stop hdigits hstop
    refine ⟨tokNumber, ident, strtod (c :: digits), ?_, rfl⟩
    rw [List.cons_append, gettok_reading (isSpace_of_isNumeric hc), isAlpha_of_isNumeric hc, if_neg Bool.false_ne_true,
      if_pos hc, htake, hdrop]
  | @character c hspace halpha hnumeric hsharp =>
    refine ⟨c.toNat, ident, num, ?_, ?_⟩
    · rw [List.singleton_append, gettok_reading hspace, halpha, if_neg Bool.false_ne_true, hnumeric,
        if_neg Bool.false_ne_true, if_neg hsharp]
    · have hcode (code : ℤ) (hneg : code < 0) : ((c.toNat : ℕ) : ℤ) ≠ code := by omega
      rw [tokenOf, if_neg (hcode _ (by decide)), if_neg (hcode _ (by decide)), if_neg (hcode _ (by decide)),
        if_neg (hcode _ (by decide)), if_neg (hcode _ (by decide))]
      simp

end Calls

section Texts

variable {V : Type} {strtod : List UInt8 → V} {text : List UInt8} {ident : List UInt8} {num : V} {c : UInt8}
  {list : List (Token V)}

theorem tokens_eq_nil {s s' : Lexer V} {code : ℤ} (h : gettok strtod s = (code, s')) (ht : tokenOf code s' = none) :
    tokens strtod s = [] := by
  rw [tokens.eq_def]
  split
  · rfl
  · next token htoken =>
    rw [h] at htoken
    cases ht.symm.trans htoken

theorem tokens_eq_cons {s s' : Lexer V} {code : ℤ} {token : Token V} (h : gettok strtod s = (code, s'))
    (ht : tokenOf code s' = some token) : tokens strtod s = token :: tokens strtod s' := by
  rw [tokens.eq_def]
  split
  · next hnone =>
    rw [h] at hnone
    cases ht.symm.trans hnone
  · next token' htoken =>
    rw [h] at htoken ⊢
    rw [Option.some.inj (ht.symm.trans htoken)]

theorem tokens_of_renders (h : Renders strtod list text) : tokens strtod (Lexer.reading text ident num) = list := by
  induction h generalizing ident num with
  | nil htrailing => exact tokens_eq_nil (gettok_trailing htrailing) rfl
  | @cons token rest gap word text hgap hword hstop _ ih =>
    obtain ⟨code, ident', num', hgettok, htoken⟩ := @gettok_word _ _ _ _ ident num _ hword hstop
    rw [tokens_eq_cons ((gettok_gap hgap).trans hgettok) htoken, ih]

theorem Trailing.space (hc : isSpace c = true) (h : Trailing text) : Trailing (c :: text) := by
  cases h with
  | gap hgap => exact .gap (.space hc hgap)
  | comment hgap hbody => exact .comment (.space hc hgap) hbody

theorem Renders.space (hc : isSpace c = true) (h : Renders strtod list text) : Renders strtod list (c :: text) := by
  cases h with
  | nil htrailing => exact .nil (htrailing.space hc)
  | cons hgap hword hstop hrest => exact .cons (.space hc hgap) hword hstop hrest

theorem Renders.comment {body : List UInt8} (hbody : ∀ d ∈ body, inComment d = true) (hc : inComment c = false)
    (h : Renders strtod list text) : Renders strtod list (35 :: (body ++ c :: text)) := by
  have append {gap : List UInt8} (t : List UInt8) :
      35 :: (body ++ c :: (gap ++ t)) = (35 :: (body ++ c :: gap)) ++ t := by simp
  cases h with
  | nil htrailing =>
    cases htrailing with
    | gap hgap => exact .nil (.gap (.comment hbody hc hgap))
    | comment hgap hlast =>
      rw [append]
      exact .nil (.comment (.comment hbody hc hgap) hlast)
  | cons hgap hword hstop hrest =>
    rw [append]
    exact .cons (.comment hbody hc hgap) hword hstop hrest

theorem stop_dropWhile (p : UInt8 → Bool) (text : List UInt8) : ∀ c ∈ (text.dropWhile p).head?, p c = false := by
  intro c hc
  have hhead := List.head?_dropWhile_not p text
  rw [Option.mem_def.mp hc] at hhead
  exact Bool.eq_false_iff.mpr (by simpa using hhead)

theorem exists_word (hc : isAlpha c = true) (name : List UInt8) (hname : ∀ d ∈ name, isAlnum d = true) :
    ∃ token : Token V, Spells strtod token (c :: name) ∧ token.continues = isAlnum := by
  by_cases hdefine : c :: name = [100, 101, 102]
  · exact ⟨.define, hdefine ▸ .define, rfl⟩
  · by_cases hexternal : c :: name = [101, 120, 116, 101, 114, 110]
    · exact ⟨.external, hexternal ▸ .external, rfl⟩
    · exact ⟨.identifier (c :: name), .identifier hc hname hdefine hexternal, rfl⟩

/-- Every text can be taken apart; what a token leaves is shorter, and so is what a comment does. -/
theorem exists_renders (strtod : List UInt8 → V) (text : List UInt8) : ∃ list, Renders strtod list text := by
  induction hlength : text.length using Nat.strong_induction_on generalizing text with
  | _ length ih =>
    subst hlength
    cases text with
    | nil => exact ⟨[], .nil (.gap .nil)⟩
    | cons c text =>
      have hrest (p : UInt8 → Bool) : (text.dropWhile p).length < (c :: text).length :=
        Nat.lt_succ_of_le (List.dropWhile_sublist p).length_le
      have hall (p : UInt8 → Bool) : ∀ d ∈ text.takeWhile p, p d = true := fun d hd => List.mem_takeWhile_imp hd
      have hsplit (p : UInt8 → Bool) : c :: text = [] ++ (c :: text.takeWhile p ++ text.dropWhile p) := by simp
      cases hspace : isSpace c with
      | true =>
        obtain ⟨list, h⟩ := ih text.length (Nat.lt_succ_self _) text rfl
        exact ⟨list, h.space hspace⟩
      | false =>
        cases halpha : isAlpha c with
        | true =>
          obtain ⟨list, h⟩ := ih _ (hrest isAlnum) _ rfl
          obtain ⟨token, hword, hcontinues⟩ := @exists_word _ strtod _ halpha _ (hall isAlnum)
          refine ⟨token :: list, ?_⟩
          rw [hsplit isAlnum]
          exact .cons .nil hword (hcontinues ▸ stop_dropWhile isAlnum text) h
        | false =>
          cases hnumeric : isNumeric c with
          | true =>
            obtain ⟨list, h⟩ := ih _ (hrest isNumeric) _ rfl
            refine ⟨.number (strtod (c :: text.takeWhile isNumeric)) :: list, ?_⟩
            rw [hsplit isNumeric]
            exact .cons .nil (.number hnumeric (hall isNumeric)) (stop_dropWhile isNumeric text) h
          | false =>
            by_cases hsharp : c = 35
            · subst hsharp
              cases hdrop : text.dropWhile inComment with
              | nil => exact ⟨[], .nil (.comment .nil (List.dropWhile_eq_nil_iff.mp hdrop))⟩
              | cons d rest =>
                have hd : inComment d = false := stop_dropWhile inComment text d (by rw [hdrop]; rfl)
                have hlt : rest.length < ((35 : UInt8) :: text).length := by
                  have hle := hrest inComment
                  rw [hdrop] at hle
                  exact Nat.lt_of_succ_lt hle
                obtain ⟨list, h⟩ := ih _ hlt rest rfl
                refine ⟨list, ?_⟩
                rw [← @List.takeWhile_append_dropWhile _ inComment text, hdrop]
                exact h.comment (hall inComment) hd
            · obtain ⟨list, h⟩ := ih text.length (Nat.lt_succ_self _) text rfl
              have hword := @Spells.character _ strtod _ hspace halpha hnumeric hsharp
              exact ⟨.character c :: list, Renders.cons .nil hword (fun _ _ => rfl) h⟩

/-- The calls return just the tokens that the input is a text of: blanks, comments and longest words. -/
theorem tokens_eq_iff (strtod : List UInt8 → V) (input : List UInt8) (num : V) :
    tokens strtod (start input num) = list ↔ Renders strtod list input := by
  have hstart {list : List (Token V)} (h : Renders strtod list input) : tokens strtod (start input num) = list :=
    @tokens_of_renders _ strtod _ [] num list (h.space (c := 32) (by decide))
  constructor
  · rintro rfl
    obtain ⟨list, h⟩ := exists_renders strtod input
    rwa [hstart h]
  · exact hstart

end Texts

end Klett.Kaleidoscope
