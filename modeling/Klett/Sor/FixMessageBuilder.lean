import Klett.Lib.Double
import Klett.Lib.Rounding
import Klett.Sor.FixTags
import Klett.Sor.FixText

/-!
The builder of test messages, on texts in ASCII, and the two parsers that read what it builds: its own and the one of
the gateway.
-/

namespace Klett.Sor.FixMessageBuilder

open Klett.Lib Decimal FixedString

section Model

abbrev Text := List UInt8

/-- The entries of a dict, in the order of their first insertion. -/
abbrev Fields := List (ℤ × Text)

def soh : UInt8 := 1

def Fields.set (fields : Fields) (tag : ℤ) (value : Text) : Fields :=
  if tag ∈ fields.map Prod.fst then fields.map fun e => if e.1 = tag then (tag, value) else e
  else fields ++ [(tag, value)]

def Fields.update (fields more : Fields) : Fields := more.foldl (fun d e => d.set e.1 e.2) fields

def lower (s : Text) : Text := s.map Binary64.lower

def sideValue (side : Text) : Text := if lower side = ascii "buy" then ascii "1" else ascii "2"

/-- A lookup in a table of strings, with the default of `get`. -/
def choose (table : List (String × String)) (default : String) (key : Text) : Text :=
  ((table.find? fun e => ascii e.1 = lower key).map fun e => ascii e.2).getD (ascii default)

def ordTypeMap : List (String × String) := [("limit", "2"), ("market", "1"), ("ioc", "2"), ("fok", "2")]

def tifMap : List (String × String) := [("day", "0"), ("gtc", "1"), ("ioc", "3"), ("fok", "4")]

def execTypeMap : List (String × String) :=
  [("new", "0"), ("partial_fill", "1"), ("fill", "2"), ("canceled", "4"), ("rejected", "8")]

def ordStatusMap : List (String × String) :=
  [("new", "0"), ("partially_filled", "1"), ("filled", "2"), ("canceled", "4"), ("rejected", "8")]

/-- `str(int(x))` -/
def whole (x : ℚ) : Text := ofInt (Platform.truncate x)

/-- How many ten-thousandths are printed. -/
def tenThousandths (x : ℚ) : ℕ := (roundHalfEven (|x| * 10 ^ 4)).natAbs

/-- `f"{x:.4f}"` -/
def fixed4 (x : ℚ) : Text :=
  (if x < 0 then [45] else []) ++ ofNat (tenThousandths x / 10 ^ 4) ++ 46 :: padded 4 (tenThousandths x % 10 ^ 4)

structure NewOrderSingle where
  clOrdId : Text
  symbol : Text
  side : Text
  quantity : ℚ
  price : Option ℚ := none
  orderType : Text := ascii "limit"
  timeInForce : Text := ascii "day"
  account : Text := ascii "ACCT001"

structure CancelRequest where
  clOrdId : Text
  origClOrdId : Text
  symbol : Text
  side : Text
  quantity : ℚ

structure ExecutionReport where
  clOrdId : Text
  execId : Text
  symbol : Text
  side : Text
  orderQty : ℚ
  execType : Text := ascii "fill"
  ordStatus : Text := ascii "filled"
  lastPx : ℚ := 0
  lastQty : ℚ := 0
  cumQty : ℚ := 0
  leavesQty : ℚ := 0
  avgPx : ℚ := 0

def newOrderSingle (args : NewOrderSingle) (transactTime : Text) : Fields :=
  [(35, ascii "D"), (11, args.clOrdId), (1, args.account), (55, args.symbol), (54, sideValue args.side),
    (38, whole args.quantity), (40, choose ordTypeMap "2" args.orderType), (59, choose tifMap "0" args.timeInForce),
    (60, transactTime)] ++ (args.price.map fun price => (44, fixed4 price)).toList

def cancelRequest (args : CancelRequest) (transactTime : Text) : Fields :=
  [(35, ascii "F"), (11, args.clOrdId), (41, args.origClOrdId), (55, args.symbol), (54, sideValue args.side),
    (38, whole args.quantity), (60, transactTime)]

def executionReport (args : ExecutionReport) (transactTime : Text) : Fields :=
  [(35, ascii "8"), (11, args.clOrdId), (17, args.execId), (55, args.symbol), (54, sideValue args.side),
    (38, whole args.orderQty), (150, choose execTypeMap "0" args.execType),
    (39, choose ordStatusMap "0" args.ordStatus), (31, fixed4 args.lastPx), (32, whole args.lastQty),
    (14, whole args.cumQty), (151, whole args.leavesQty), (6, fixed4 args.avgPx), (60, transactTime)]

/-- No id and an empty one are the same. -/
def heartbeat (testReqId : Option Text) : Fields :=
  match testReqId with
  | none | some [] => [(35, ascii "0")]
  | some id => [(35, ascii "0"), (112, id)]

def logon (encryptMethod heartbeatInt : ℤ) : Fields :=
  [(35, ascii "A"), (98, ofInt encryptMethod), (108, ofInt heartbeatInt)]

def logout (text : Text) : Fields := (35, ascii "5") :: if text = [] then [] else [(58, text)]

/-- A call of one of the public methods. -/
inductive Request where
  | newOrderSingle (args : NewOrderSingle)
  | cancelRequest (args : CancelRequest)
  | executionReport (args : ExecutionReport)
  | heartbeat (testReqId : Option Text)
  | logon (encryptMethod heartbeatInt : ℤ)
  | logout (text : Text)

def Request.fields (transactTime : Text) : Request → Fields
  | .newOrderSingle args => FixMessageBuilder.newOrderSingle args transactTime
  | .cancelRequest args => FixMessageBuilder.cancelRequest args transactTime
  | .executionReport args => FixMessageBuilder.executionReport args transactTime
  | .heartbeat testReqId => FixMessageBuilder.heartbeat testReqId
  | .logon encryptMethod heartbeatInt => FixMessageBuilder.logon encryptMethod heartbeatInt
  | .logout text => FixMessageBuilder.logout text

structure Builder where
  senderCompId : Text := ascii "SOR_CLIENT"
  targetCompId : Text := ascii "EXCHANGE"
  seqNum : ℕ := 1

def fieldsText (fields : Fields) : Text := [soh].intercalate (fields.map FixMessage.fieldText) ++ [soh]

/-- `sum(ord(c) for c in raw) % 256` -/
def checksum (raw : Text) : ℕ := (raw.map UInt8.toNat).sum % 256

namespace Builder

variable (b : Builder) (sendingTime : Text)

def bodyFields (fields : Fields) : Fields :=
  Fields.update [(49, b.senderCompId), (56, b.targetCompId), (34, ofNat b.seqNum), (52, sendingTime)] fields

def header (body : Text) : Text := ascii "8=FIX.4.2" ++ soh :: ascii "9=" ++ ofNat body.length ++ [soh]

def trailer (raw : Text) : Text := ascii "10=" ++ padded 3 (checksum raw) ++ [soh]

def buildMessage (fields : Fields) : Text × Builder :=
  let body := fieldsText (b.bodyFields sendingTime fields)
  let raw := header body ++ body
  (raw ++ trailer raw, { b with seqNum := b.seqNum + 1 })

end Builder

/-- A call with the times that the clock shows for the two time stamps. -/
structure Call where
  request : Request
  transactTime : Text
  sendingTime : Text

def Call.fields (c : Call) : Fields := c.request.fields c.transactTime

/-- What one builder writes, call after call. -/
def messages (b : Builder) : List Call → List Text
  | [] => []
  | c :: calls => (b.buildMessage c.sendingTime c.fields).1 :: messages (b.buildMessage c.sendingTime c.fields).2 calls

def isBlank (c : UInt8) : Bool := isSpace c || (28 ≤ c && c ≤ 31)

def strip (s : Text) : Text := ((s.dropWhile isBlank).reverse.dropWhile isBlank).reverse

/-- `int(s)`: digits in groups that single underscores part. -/
def int (s : Text) : Option ℤ :=
  let (negative, digits) := sign (strip s)
  let groups := digits.splitOn 95
  if groups.all (fun group => group ≠ [] && group.all (isDigit 10)) then
    some (if negative then -value 10 groups.flatten else value 10 groups.flatten)
  else none

def readPair (result : Fields) (pair : Text) : Option Fields :=
  match Delimited.cut FixMessage.equals pair with
  | none => some result
  | some (tag, value) => (int tag).map fun tag => result.set tag value

def parseMessage (raw : Text) : Option Fields := (raw.splitOn soh).foldlM readPair []

end Model

section Dict

variable {fields more : Fields} {tag : ℤ} {value : Text}

theorem Fields.set_new (h : tag ∉ fields.map Prod.fst) : fields.set tag value = fields ++ [(tag, value)] := if_neg h

/-- Tags that are new, and different from each other, go to the end. -/
theorem Fields.update_new (hnodup : (more.map Prod.fst).Nodup) (hnew : ∀ e ∈ more, e.1 ∉ fields.map Prod.fst) :
    fields.update more = fields ++ more := by
  induction more generalizing fields with
  | nil => exact (List.append_nil fields).symm
  | cons e more ih =>
    obtain ⟨htag, hnodup⟩ := List.nodup_cons.mp hnodup
    obtain ⟨he, hmore⟩ := List.forall_mem_cons.mp hnew
    have hupdate : fields.update (e :: more) = (fields.set e.1 e.2).update more := rfl
    rw [hupdate, Fields.set_new he, ih hnodup, List.append_assoc, List.singleton_append]
    intro g hg
    rw [List.map_append, List.mem_append]
    rintro (hold | hnew)
    · exact hmore g hg hold
    · rw [List.map_singleton, List.mem_singleton] at hnew
      exact htag (hnew ▸ List.mem_map_of_mem hg)

end Dict

section Numbers

variable {s : Text} {z : ℤ}

theorem strip_eq (h : ∀ c ∈ s, isBlank c = false) : strip s = s := by
  have hdrop (t : Text) (ht : ∀ c ∈ t, isBlank c = false) : t.dropWhile isBlank = t := by
    cases t with
    | nil => rfl
    | cons c t => exact List.dropWhile_cons_of_neg (by simp [ht c])
  rw [strip, hdrop s h, hdrop, List.reverse_reverse]
  simpa using h

theorem isBlank_of_isDigit {c : UInt8} (h : isDigit 10 c = true) : isBlank c = false := by
  obtain ⟨hlow, -⟩ := toNat_of_isDigit h
  rw [isBlank, isSpace_of_isDigit h]
  simp only [Bool.false_or, Bool.and_eq_false_iff, decide_eq_false_iff_not, UInt8.le_iff_toNat_le,
    UInt8.reduceToNat]
  omega

theorem sign_ofInt (z : ℤ) : sign (ofInt z) = (decide (z < 0), ofNat z.natAbs) := by
  unfold ofInt
  split_ifs with hz
  · simp [sign, hz]
  · have hsign := sign_of_digits (fun c hc => isDigit_of_mem_ofNat hc) [] (ofNat_ne_nil (n := z.natAbs))
    rw [List.append_nil] at hsign
    rw [hsign]
    simp [hz]

theorem int_ofInt (z : ℤ) : int (ofInt z) = some z := by
  have hblank : ∀ c ∈ ofInt z, isBlank c = false := by
    intro c hc
    obtain rfl | hdigit := mem_ofInt hc
    · rfl
    · exact isBlank_of_isDigit hdigit
  have hsplit : (ofNat z.natAbs).splitOn 95 = [ofNat z.natAbs] := by
    have hmem : ∀ group ∈ [ofNat z.natAbs], (95 : UInt8) ∉ group := by
      intro group hgroup hmem
      rw [List.mem_singleton.mp hgroup] at hmem
      exact absurd (isDigit_of_mem_ofNat hmem) (by decide)
    simpa using List.splitOn_intercalate 95 hmem (by simp)
  have hdigits : (ofNat z.natAbs).all (isDigit 10) = true := List.all_eq_true.mpr fun c hc => isDigit_of_mem_ofNat hc
  unfold int
  rw [strip_eq hblank, sign_ofInt]
  simp only [hsplit, List.all_cons, List.all_nil, hdigits, List.flatten_cons, List.flatten_nil, List.append_nil,
    value_ofNat, Bool.and_true]
  rw [if_pos (by simp [ofNat_ne_nil])]
  by_cases hz : z < 0
  · simp only [hz, decide_true, if_true]
    congr
    omega
  · simp only [hz, decide_false, Bool.false_eq_true, if_false]
    congr
    omega

end Numbers

section Framing

variable {b : Builder} {sendingTime : Text} {fields : Fields} {entries : Fields}

/-- No value holds the delimiter. -/
def Clean (fields : Fields) : Prop := ∀ e ∈ fields, soh ∉ e.2

/-- The header, the fields of the body and the checksum, as the message has them. -/
def framed (b : Builder) (sendingTime : Text) (fields : Fields) : Fields :=
  let bodyFields := b.bodyFields sendingTime fields
  let body := fieldsText bodyFields
  (8, ascii "FIX.4.2") :: (9, ofNat body.length) :: bodyFields ++
    [(10, padded 3 (checksum (Builder.header body ++ body)))]

theorem fieldsText_eq (h : entries ≠ []) :
    fieldsText entries = entries.flatMap fun e => FixMessage.fieldText e ++ [soh] := by
  induction entries with
  | nil => exact absurd rfl h
  | cons e entries ih =>
    cases entries with
    | nil => simp [fieldsText]
    | cons f entries =>
      rw [List.flatMap_cons, ← ih (List.cons_ne_nil f entries)]
      simp [fieldsText, List.intercalate_cons_cons]

theorem buildMessage_eq (hbody : b.bodyFields sendingTime fields ≠ []) :
    (b.buildMessage sendingTime fields).1 = fieldsText (framed b sendingTime fields) := by
  have hframed : framed b sendingTime fields ≠ [] := by simp [framed]
  have height : FixMessage.fieldText (8, ascii "FIX.4.2") = ascii "8=FIX.4.2" := by decide
  have hnine (value : Text) : FixMessage.fieldText (9, value) = ascii "9=" ++ value := by
    have htag : ofInt 9 ++ [FixMessage.equals] = ascii "9=" := by decide
    rw [← htag, FixMessage.fieldText, List.append_assoc, List.singleton_append]
  have hten (value : Text) : FixMessage.fieldText (10, value) = ascii "10=" ++ value := by
    have htag : ofInt 10 ++ [FixMessage.equals] = ascii "10=" := by decide
    rw [← htag, FixMessage.fieldText, List.append_assoc, List.singleton_append]
  rw [fieldsText_eq hframed]
  unfold framed Builder.buildMessage
  simp only [List.cons_append, List.flatMap_cons, List.flatMap_append, List.flatMap_nil, ← fieldsText_eq hbody, height,
    hnine, hten, Builder.header, Builder.trailer]
  simp

theorem not_mem_fieldText {e : ℤ × Text} {c : UInt8} (hminus : c ≠ 45) (hequals : c ≠ FixMessage.equals)
    (hdigit : isDigit 10 c = false) (hvalue : c ∉ e.2) : c ∉ FixMessage.fieldText e := by
  unfold FixMessage.fieldText
  rw [List.mem_append, List.mem_cons]
  rintro (h | h | h)
  · exact FixMessage.not_mem_ofInt hminus hdigit _ h
  · exact hequals h
  · exact hvalue h

theorem intercalate_last {pieces : List Text} (h : pieces ≠ []) :
    [soh].intercalate pieces ++ [soh] = [soh].intercalate (pieces ++ [[]]) := by
  induction pieces with
  | nil => exact absurd rfl h
  | cons piece pieces ih =>
    cases pieces with
    | nil => simp
    | cons next pieces =>
      have hnext := ih (List.cons_ne_nil next pieces)
      rw [List.cons_append, List.cons_append, List.intercalate_cons_cons, List.intercalate_cons_cons, List.append_assoc,
        hnext, List.cons_append]

theorem splitOn_fieldsText (h : Clean entries) (hne : entries ≠ []) :
    (fieldsText entries).splitOn soh = entries.map FixMessage.fieldText ++ [[]] := by
  have hpieces : entries.map FixMessage.fieldText ≠ [] := by simpa using hne
  rw [fieldsText, intercalate_last hpieces]
  apply List.splitOn_intercalate soh _ (by simp)
  intro piece hpiece
  obtain hpiece | hpiece := List.mem_append.mp hpiece
  · obtain ⟨f, hf, rfl⟩ := List.mem_map.mp hpiece
    exact not_mem_fieldText (by decide) (by decide) (by decide) (h f hf)
  · rw [List.mem_singleton.mp hpiece]
    exact List.not_mem_nil

theorem readPair_fieldText (result : Fields) (e : ℤ × Text) :
    readPair result (FixMessage.fieldText e) = some (result.set e.1 e.2) := by
  have hcut : Delimited.cut FixMessage.equals (FixMessage.fieldText e) = some (ofInt e.1, e.2) :=
    Delimited.cut_append (FixMessage.not_mem_ofInt (by decide) (by decide) e.1)
  unfold readPair
  rw [hcut]
  simp only [int_ofInt, Option.map_some]

theorem parseMessage_fieldsText (h : Clean entries) (hne : entries ≠ []) :
    parseMessage (fieldsText entries) = some (Fields.update [] entries) := by
  have hfold (result : Fields) : (entries.map FixMessage.fieldText ++ [[]]).foldlM readPair result =
      some (result.update entries) := by
    clear h hne
    induction entries generalizing result with
    | nil => rfl
    | cons e entries ih =>
      rw [List.map_cons, List.cons_append, List.foldlM_cons, readPair_fieldText]
      exact ih _
  rw [parseMessage, splitOn_fieldsText h hne, hfold]

end Framing

section RoundTrip

variable {b : Builder} {sendingTime transactTime : Text} {fields : Fields} {request : Request}

/-- The tags around the fields of a request. -/
def frameTags : List ℤ := [8, 9, 49, 56, 34, 52, 10]

/-- No request sets a tag twice or touches the frame. -/
theorem Request.fields_tags (request : Request) (transactTime : Text) :
    ((request.fields transactTime).map Prod.fst).Nodup ∧
      ∀ e ∈ request.fields transactTime, e.1 ∉ frameTags := by
  cases request with
  | newOrderSingle args =>
    obtain ⟨clOrdId, symbol, side, quantity, price, orderType, timeInForce, account⟩ := args
    cases price <;> simp [Request.fields, FixMessageBuilder.newOrderSingle, frameTags]
  | cancelRequest args => simp [Request.fields, FixMessageBuilder.cancelRequest, frameTags]
  | executionReport args => simp [Request.fields, FixMessageBuilder.executionReport, frameTags]
  | heartbeat testReqId =>
    rcases testReqId with _ | _ | ⟨c, id⟩ <;> simp [Request.fields, FixMessageBuilder.heartbeat, frameTags]
  | logon encryptMethod heartbeatInt => simp [Request.fields, FixMessageBuilder.logon, frameTags]
  | logout text =>
    by_cases h : text = [] <;> simp [Request.fields, FixMessageBuilder.logout, frameTags, h]

theorem bodyFields_eq (hnodup : (fields.map Prod.fst).Nodup) (htags : ∀ e ∈ fields, e.1 ∉ frameTags) :
    b.bodyFields sendingTime fields =
      [(49, b.senderCompId), (56, b.targetCompId), (34, ofNat b.seqNum), (52, sendingTime)] ++ fields := by
  apply Fields.update_new hnodup
  intro e he hmem
  apply htags e he
  have hsub : [(49 : ℤ), 56, 34, 52] ⊆ frameTags := by decide
  exact hsub hmem

/-- Texts without the delimiter: the names of the two sides, the time and the values of the fields. -/
structure Plain (b : Builder) (sendingTime : Text) (fields : Fields) : Prop where
  sender : soh ∉ b.senderCompId
  target : soh ∉ b.targetCompId
  time : soh ∉ sendingTime
  fields : Clean fields

theorem not_mem_ofNat {c : UInt8} (hc : isDigit 10 c = false) (n : ℕ) : c ∉ ofNat n := by
  intro h
  rw [isDigit_of_mem_ofNat h] at hc
  cases hc

theorem not_mem_padded {c : UInt8} (hc : isDigit 10 c = false) (k n : ℕ) : c ∉ padded k n := by
  intro h
  rw [isDigit_of_mem_padded h] at hc
  cases hc

theorem framed_eq (hnodup : (fields.map Prod.fst).Nodup) (htags : ∀ e ∈ fields, e.1 ∉ frameTags) :
    ∃ length sum, framed b sendingTime fields = [(8, ascii "FIX.4.2"), (9, ofNat length), (49, b.senderCompId),
      (56, b.targetCompId), (34, ofNat b.seqNum), (52, sendingTime)] ++ fields ++ [(10, padded 3 sum)] := by
  unfold framed
  rw [bodyFields_eq hnodup htags]
  exact ⟨_, _, rfl⟩

theorem framed_nodup (hnodup : (fields.map Prod.fst).Nodup) (htags : ∀ e ∈ fields, e.1 ∉ frameTags) :
    ((framed b sendingTime fields).map Prod.fst).Nodup := by
  obtain ⟨length, sum, heq⟩ := @framed_eq b sendingTime _ hnodup htags
  have hout (tag : ℤ) (htag : tag ∈ frameTags) : tag ∉ fields.map Prod.fst := by
    intro hmem
    obtain ⟨e, he, rfl⟩ := List.mem_map.mp hmem
    exact htags e he htag
  rw [heq, List.map_append, List.map_append, List.append_assoc, List.nodup_append]
  refine ⟨by simp, ?_, ?_⟩
  · rw [List.nodup_append]
    refine ⟨hnodup, by simp, ?_⟩
    rintro tag htag _ hten rfl
    rw [List.map_singleton, List.mem_singleton] at hten
    exact hout _ (by simp [hten, frameTags]) htag
  · rintro tag hframe _ hrest rfl
    obtain hfield | hten := List.mem_append.mp hrest
    · refine hout _ ?_ hfield
      have hsub : [(8 : ℤ), 9, 49, 56, 34, 52] ⊆ frameTags := by decide
      exact hsub hframe
    · rw [List.map_singleton, List.mem_singleton] at hten
      subst hten
      simp at hframe

theorem framed_clean (h : Plain b sendingTime fields) (hnodup : (fields.map Prod.fst).Nodup)
    (htags : ∀ e ∈ fields, e.1 ∉ frameTags) : Clean (framed b sendingTime fields) := by
  obtain ⟨length, sum, heq⟩ := @framed_eq b sendingTime _ hnodup htags
  have hdigit : isDigit 10 soh = false := by decide
  have hfront : Clean [(8, ascii "FIX.4.2"), (9, ofNat length), (49, b.senderCompId), (56, b.targetCompId),
      (34, ofNat b.seqNum), (52, sendingTime)] := by
    simp only [Clean, List.forall_mem_cons]
    exact ⟨by decide, not_mem_ofNat hdigit _, h.sender, h.target, not_mem_ofNat hdigit _, h.time, by simp⟩
  intro e he
  rw [heq, List.mem_append, List.mem_append] at he
  obtain (he | he) | he := he
  · exact hfront e he
  · exact h.fields e he
  · rw [List.mem_singleton.mp he]
    exact not_mem_padded hdigit 3 sum

/-- The builder's own parser reads a request back with the frame around it. -/
theorem parseMessage_buildMessage (h : Plain b sendingTime (request.fields transactTime)) :
    parseMessage (b.buildMessage sendingTime (request.fields transactTime)).1 =
      some (framed b sendingTime (request.fields transactTime)) := by
  obtain ⟨hnodup, htags⟩ := request.fields_tags transactTime
  have hbody : b.bodyFields sendingTime (request.fields transactTime) ≠ [] := by simp [bodyFields_eq hnodup htags]
  have hne : framed b sendingTime (request.fields transactTime) ≠ [] := by simp [framed]
  have hupdate : Fields.update [] (framed b sendingTime (request.fields transactTime)) =
      framed b sendingTime (request.fields transactTime) := by
    apply Fields.update_new (framed_nodup hnodup htags)
    simp
  rw [buildMessage_eq hbody, parseMessage_fieldsText (framed_clean h hnodup htags) hne, hupdate]

theorem messages_getElem? (b : Builder) (calls : List Call) (i : ℕ) : (messages b calls)[i]? =
    calls[i]?.map fun c => ({ b with seqNum := b.seqNum + i }.buildMessage c.sendingTime c.fields).1 := by
  induction calls generalizing b i with
  | nil => rfl
  | cons c calls ih =>
    cases i with
    | zero => rfl
    | succ i =>
      rw [messages, List.getElem?_cons_succ, List.getElem?_cons_succ, ih]
      simp only [Builder.buildMessage, Nat.add_assoc, Nat.add_comm 1]

/-- What stands between the header and the checksum, and the two numbers that go with it. -/
structure Framed (text body : Text) (length sum : ℕ) : Prop where
  text : text = Builder.header body ++ body ++ ascii "10=" ++ padded 3 sum ++ [soh]
  length : length = body.length
  sum : sum = ((Builder.header body ++ body).map UInt8.toNat).sum % 256

/-- Message after message, the builder's parser gives back the fields of the call, the two names, the next sequence
number, the length of the body and the checksum. -/
theorem messages_roundTrip {calls : List Call} {i : ℕ} {c : Call} (hi : calls[i]? = some c)
    (h : Plain b c.sendingTime c.fields) :
    ∃ text body length sum, (messages b calls)[i]? = some text ∧ Framed text body length sum ∧
      parseMessage text = some ([(8, ascii "FIX.4.2"), (9, ofNat length), (49, b.senderCompId), (56, b.targetCompId),
        (34, ofNat (b.seqNum + i)), (52, c.sendingTime)] ++ c.fields ++ [(10, padded 3 sum)]) := by
  let later : Builder := { b with seqNum := b.seqNum + i }
  obtain ⟨hnodup, htags⟩ := c.request.fields_tags c.transactTime
  have hparse : parseMessage (later.buildMessage c.sendingTime c.fields).1 = some (framed later c.sendingTime c.fields) :=
    parseMessage_buildMessage ⟨h.sender, h.target, h.time, h.fields⟩
  refine ⟨(later.buildMessage c.sendingTime c.fields).1, fieldsText (later.bodyFields c.sendingTime c.fields), _, _, ?_,
    ⟨?_, rfl, rfl⟩, ?_⟩
  · rw [messages_getElem?, hi]
    rfl
  · simp [Builder.buildMessage, Builder.trailer, checksum, later]
  · have hbody : later.bodyFields c.sendingTime c.fields = [(49, b.senderCompId), (56, b.targetCompId),
        (34, ofNat (b.seqNum + i)), (52, c.sendingTime)] ++ c.fields := bodyFields_eq hnodup htags
    rw [hparse, framed, hbody]
    rfl

def sellIbm : NewOrderSingle where
  clOrdId := ascii "42"
  symbol := ascii "IBM"
  side := ascii "Sell"
  quantity := 100
  price := some (3 / 2)
  orderType := ascii "LIMIT"
  timeInForce := ascii "ioc"

def logonAndSell : List Call :=
  [⟨.logon 0 30, [], ascii "20240102-03:04:05"⟩,
    ⟨.newOrderSingle sellIbm, ascii "20240102-03:04:06", ascii "20240102-03:04:07"⟩]

/-- The order is the second message of its session. -/
theorem messages_roundTrip_order : ∃ text body length sum,
    (messages {} logonAndSell)[1]? = some text ∧ Framed text body length sum ∧
      parseMessage text = some ([(8, ascii "FIX.4.2"), (9, ofNat length), (49, ascii "SOR_CLIENT"),
        (56, ascii "EXCHANGE"), (34, ofNat 2), (52, ascii "20240102-03:04:07")] ++
          [(35, ascii "D"), (11, ascii "42"), (1, ascii "ACCT001"), (55, ascii "IBM"), (54, ascii "2"), (38, ascii "100"),
            (40, ascii "2"), (59, ascii "3"), (60, ascii "20240102-03:04:06"), (44, ascii "1.5000")] ++
          [(10, padded 3 sum)]) := by
  have hfields : newOrderSingle sellIbm (ascii "20240102-03:04:06") = [(35, ascii "D"), (11, ascii "42"),
      (1, ascii "ACCT001"), (55, ascii "IBM"), (54, ascii "2"), (38, ascii "100"), (40, ascii "2"), (59, ascii "3"),
      (60, ascii "20240102-03:04:06"), (44, ascii "1.5000")] := by
    decide +kernel
  have hplain : Plain {} (ascii "20240102-03:04:07") (newOrderSingle sellIbm (ascii "20240102-03:04:06")) := by
    rw [hfields]
    refine ⟨by decide, by decide, by decide, ?_⟩
    simp only [Clean, List.forall_mem_cons]
    exact ⟨by decide, by decide, by decide, by decide, by decide, by decide, by decide, by decide, by decide, by decide,
      by simp⟩
  rw [← hfields]
  exact messages_roundTrip (b := {})
    (c := ⟨.newOrderSingle sellIbm, ascii "20240102-03:04:06", ascii "20240102-03:04:07"⟩) rfl hplain

end RoundTrip

section Gateway

variable {P : Platform} {b : Builder} {sendingTime transactTime : Text} {entries fields : Fields}

/-- The price that comes of the text. -/
def readBack (P : Platform) (x : ℚ) : ℚ :=
  if tenThousandths x = 0 then 0
  else P.round (if x < 0 then -((tenThousandths x : ℚ) / 10 ^ 4) else (tenThousandths x : ℚ) / 10 ^ 4)

def orderedTif (timeInForce : Text) : TimeInForce :=
  if lower timeInForce = ascii "gtc" then .gtc
  else if lower timeInForce = ascii "ioc" then .ioc
  else if lower timeInForce = ascii "fok" then .fok
  else .day

/-- The order that was asked for, as the gateway has it: an order type is a market or a limit one, the account is not
read, and the price is what its four decimals are worth. -/
def ordered (P : Platform) (args : NewOrderSingle) (id : ℕ) : Order where
  clientOrderId := id
  symbol := .assign args.symbol
  side := if lower args.side = ascii "buy" then .buy else .sell
  type := if lower args.orderType = ascii "market" then .market else .limit
  tif := orderedTif args.timeInForce
  price := (args.price.map fun x => toPrice P (readBack P x)).getD invalidPrice
  quantity := Platform.truncate args.quantity
  remainingQuantity := Platform.truncate args.quantity

theorem stoll_ofInt {z : ℤ} (hz : -2 ^ 63 ≤ z ∧ z < 2 ^ 63) : stoll (ofInt z) = some z := by
  have hwhole : (if z < 0 then -(z.natAbs : ℤ) else z.natAbs) = z := by
    split_ifs <;> omega
  unfold stoll
  rw [integer_ofInt]
  simp only [decide_eq_true_eq, hwhole]
  exact if_pos hz

theorem ofInt_ne_nil (z : ℤ) : ofInt z ≠ [] := by
  unfold ofInt
  split_ifs
  · exact List.cons_ne_nil _ _
  · exact ofNat_ne_nil

def canceled (args : CancelRequest) (id origId : ℕ) : Sor.CancelRequest where
  orderId := origId
  clientOrderId := id
  symbol := .assign args.symbol
  side := if lower args.side = ascii "buy" then .buy else .sell

end Gateway

end Klett.Sor.FixMessageBuilder
