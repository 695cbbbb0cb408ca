import Klett.Lib.Delimited
import Klett.Sor.FixAdapter

namespace Klett.Sor

open Klett.Lib Decimal Delimited FixedString

namespace FixMessage

section Model

/-- `'|'` -/
def bar : UInt8 := 124

/-- `'='` -/
def equals : UInt8 := 61

/-- The entries of an unordered map, each once, in some order. -/
structure Lists (entries : List (ℤ × List UInt8)) (msg : FixMessage) : Prop where
  nodup : (entries.map Prod.fst).Nodup
  mem : ∀ tag value, (tag, value) ∈ entries ↔ msg.fields tag = some value

def fieldText (entry : ℤ × List UInt8) : List UInt8 := ofInt entry.1 ++ equals :: entry.2

/-- `serialize`, walking the map in the order of the entries. -/
def serialize (entries : List (ℤ × List UInt8)) : List UInt8 := [bar].intercalate (entries.map fieldText)

/-- A token without `'='` is passed over. A tag that is no `int` throws. -/
def readToken (msg : FixMessage) (token : List UInt8) : Option FixMessage :=
  match cut equals token with
  | none => some msg
  | some (tag, value) => (stoi tag).map fun tag => msg.set tag value

def typeFromFix (current : FixType) (mt : List UInt8) : FixType :=
  if mt = ascii "D" then .newOrderSingle
  else if mt = ascii "F" then .orderCancelRequest
  else if mt = ascii "8" then .executionReport
  else if mt = ascii "0" then .heartbeat
  else if mt = ascii "A" then .logon
  else if mt = ascii "5" then .logout
  else current

def deriveType (msg : FixMessage) : FixMessage :=
  match msg.fields msgType with
  | none => msg
  | some mt => { msg with type := typeFromFix msg.type mt }

def deserialize (raw : List UInt8) : Option FixMessage :=
  ((getlines bar raw).foldlM readToken { type := .heartbeat }).map deriveType

end Model

section Listing

variable {msg : FixMessage} {entries : List (ℤ × List UInt8)}

theorem Lists.set (h : Lists entries msg) (tag : ℤ) (value : List UInt8) :
    Lists ((tag, value) :: entries.filter (fun e => e.1 ≠ tag)) (msg.set tag value) where
  nodup := by
    rw [List.map_cons, List.nodup_cons]
    constructor
    · intro hm
      obtain ⟨e, he, rfl⟩ := List.mem_map.mp hm
      simpa using (List.mem_filter.mp he).2
    · exact h.nodup.sublist (List.filter_sublist.map _)
  mem t v := by
    rw [List.mem_cons, List.mem_filter, Prod.mk.injEq, h.mem]
    by_cases ht : t = tag
    · subst ht
      simp [FixMessage.set, eq_comm]
    · simp [set_other ht, ht]

theorem Lists.cons {tag : ℤ} (h : Lists entries msg) (value : List UInt8) (hnew : tag ∉ entries.map Prod.fst) :
    Lists ((tag, value) :: entries) (msg.set tag value) := by
  have hkept : entries.filter (fun e => e.1 ≠ tag) = entries :=
    List.filter_eq_self.mpr fun e he => decide_eq_true fun heq => hnew (heq ▸ List.mem_map_of_mem he)
  have hset := h.set tag value
  rwa [hkept] at hset

theorem Lists.empty (type : FixType) : Lists [] { type := type } where
  nodup := List.nodup_nil
  mem _ _ := by simp

def Listed (msg : FixMessage) : Prop := ∃ entries, Lists entries msg

theorem Listed.set (tag : ℤ) (value : List UInt8) (h : Listed msg) : Listed (msg.set tag value) := by
  obtain ⟨entries, hl⟩ := h
  exact ⟨_, hl.set tag value⟩

def setAll (msg : FixMessage) (entries : List (ℤ × List UInt8)) : FixMessage :=
  entries.foldl (fun msg e => msg.set e.1 e.2) msg

theorem setAll_type : (msg.setAll entries).type = msg.type := by
  induction entries generalizing msg with
  | nil => rfl
  | cons e entries ih => exact ih

theorem setAll_fields (hn : (entries.map Prod.fst).Nodup) (tag : ℤ) (value : List UInt8) :
    (msg.setAll entries).fields tag = some value ↔
      (tag, value) ∈ entries ∨ tag ∉ entries.map Prod.fst ∧ msg.fields tag = some value := by
  induction entries generalizing msg with
  | nil => simp [setAll]
  | cons e entries ih =>
    obtain ⟨hnot, hrest⟩ := List.nodup_cons.mp hn
    have hnext : (msg.setAll (e :: entries)) = (msg.set e.1 e.2).setAll entries := rfl
    rw [hnext, ih hrest]
    by_cases ht : tag = e.1
    · subst ht
      have hlater : (e.1, value) ∉ entries := fun h => hnot (List.mem_map.mpr ⟨_, h, rfl⟩)
      have hfirst : (e.1, value) = e ↔ e.2 = value := by
        rw [Prod.ext_iff]
        simp [eq_comm]
      simp [hlater, hnot, hfirst, FixMessage.set]
    · rw [set_other ht]
      have hne : (tag, value) ≠ e := fun h => ht (congrArg Prod.fst h)
      simp [hne, ht]

theorem Lists.setAll_eq (h : Lists entries msg) (type : FixType) :
    ({ type := type } : FixMessage).setAll entries = { type := type, fields := msg.fields } := by
  have htype : (({ type := type } : FixMessage).setAll entries).type = type := setAll_type
  have hfields : (({ type := type } : FixMessage).setAll entries).fields = msg.fields := by
    funext tag
    apply Option.ext
    intro value
    rw [← h.mem, setAll_fields h.nodup]
    simp
  cases hread : ({ type := type } : FixMessage).setAll entries
  rw [hread] at htype hfields
  obtain rfl := htype
  obtain rfl := hfields
  rfl

end Listing

section RoundTrip

variable {msg : FixMessage} {entries : List (ℤ × List UInt8)}

/-- Tags that are `int`s, and values free of the delimiter. -/
def Clean (msg : FixMessage) : Prop :=
  ∀ tag value, msg.fields tag = some value → (-2 ^ 31 ≤ tag ∧ tag < 2 ^ 31) ∧ bar ∉ value

theorem Clean.set {tag : ℤ} {value : List UInt8} (h : Clean msg) (htag : -2 ^ 31 ≤ tag ∧ tag < 2 ^ 31)
    (hvalue : bar ∉ value) : Clean (msg.set tag value) := by
  intro t v hv
  by_cases ht : t = tag
  · subst ht
    obtain rfl : value = v := by simpa [FixMessage.set] using hv
    exact ⟨htag, hvalue⟩
  · rw [set_other ht] at hv
    exact h t v hv

theorem not_mem_ofInt {b : UInt8} (hb : b ≠ 45) (hd : isDigit 10 b = false) (z : ℤ) : b ∉ ofInt z := by
  intro h
  obtain rfl | h := mem_ofInt h
  · exact hb rfl
  · rw [hd] at h
    cases h

theorem readToken_fieldText {tag : ℤ} {value : List UInt8} (htag : -2 ^ 31 ≤ tag ∧ tag < 2 ^ 31) :
    readToken msg (fieldText (tag, value)) = some (msg.set tag value) := by
  have hcut : cut equals (fieldText (tag, value)) = some (ofInt tag, value) :=
    cut_append (not_mem_ofInt (by decide) (by decide) tag)
  unfold readToken
  rw [hcut]
  simp only [stoi_ofInt htag.1 htag.2, Option.map_some]

theorem foldlM_readToken (h : ∀ e ∈ entries, -2 ^ 31 ≤ e.1 ∧ e.1 < 2 ^ 31) :
    (entries.map fieldText).foldlM readToken msg = some (msg.setAll entries) := by
  induction entries generalizing msg with
  | nil => rfl
  | cons e entries ih =>
    obtain ⟨hhead, htail⟩ := List.forall_mem_cons.mp h
    rw [List.map_cons, List.foldlM_cons, readToken_fieldText hhead]
    exact ih htail

/-- A clean message comes back with its fields, in whatever order they were written. -/
theorem deserialize_serialize (hc : Clean msg) (hl : Lists entries msg) : deserialize (serialize entries) =
    some (deriveType { type := .heartbeat, fields := msg.fields }) := by
  have hclean : ∀ e ∈ entries, (-2 ^ 31 ≤ e.1 ∧ e.1 < 2 ^ 31) ∧ bar ∉ e.2 := fun e he => hc e.1 e.2 ((hl.mem _ _).mp he)
  have htokens : getlines bar (serialize entries) = entries.map fieldText := by
    apply getlines_intercalate
    · intro piece hpiece
      obtain ⟨e, he, rfl⟩ := List.mem_map.mp hpiece
      unfold fieldText
      rw [List.mem_append, List.mem_cons]
      rintro (h | h | h)
      · exact not_mem_ofInt (by decide) (by decide) _ h
      · exact absurd h (by decide)
      · exact (hclean e he).2 h
    · intro piece hpiece
      obtain ⟨e, -, rfl⟩ := List.mem_map.mp hpiece
      simp [fieldText]
  unfold deserialize
  rw [htokens, foldlM_readToken fun e he => (hclean e he).1, Option.map_some]
  rw [hl.setAll_eq]

def Free (msg : FixMessage) : Prop := ∀ tag, ∀ value ∈ msg.fields tag, bar ∉ value

theorem readToken_free {token : List UInt8} {next : FixMessage} (ht : bar ∉ token) (h : readToken msg token = some next)
    (hm : Free msg) : Free next := by
  unfold readToken at h
  cases hcut : cut equals token with
  | none =>
    rw [hcut] at h
    obtain rfl := Option.some.inj h
    exact hm
  | some kv =>
    obtain ⟨key, value⟩ := kv
    rw [hcut] at h
    obtain ⟨tag, -, rfl⟩ := Option.map_eq_some_iff.mp h
    intro t v hv
    by_cases heq : t = tag
    · subst heq
      obtain rfl : value = v := by simpa [FixMessage.set] using hv
      exact fun hb => ht (subset_of_cut hcut hb)
    · rw [set_other heq] at hv
      exact hm t v hv

theorem foldlM_free {tokens : List (List UInt8)} {read : FixMessage} (ht : ∀ token ∈ tokens, bar ∉ token)
    (h : tokens.foldlM readToken msg = some read) (hm : Free msg) : Free read := by
  induction tokens generalizing msg with
  | nil =>
    obtain rfl := Option.some.inj h
    exact hm
  | cons token tokens ih =>
    obtain ⟨hhead, htail⟩ := List.forall_mem_cons.mp ht
    rw [List.foldlM_cons] at h
    obtain ⟨next, hnext, hrest⟩ := Option.bind_eq_some_iff.mp h
    exact ih htail hrest (readToken_free hhead hnext hm)

theorem deserialize_free {raw : List UInt8} (h : deserialize raw = some msg) :
    Free msg := by
  obtain ⟨read, hread, rfl⟩ := Option.map_eq_some_iff.mp h
  have hfree := foldlM_free (fun token => not_mem_of_mem_getlines) hread nofun
  unfold deriveType
  split <;> exact hfree

end RoundTrip

end FixMessage

namespace FixAdapter

open FixMessage

variable {x : FixAdapter} {order : Order}

theorem trimZeros_subset (s : List UInt8) : trimZeros s ⊆ s := by
  fun_induction trimZeros s with
  | case1 => exact List.Subset.refl _
  | case2 b s h ih => exact List.Subset.trans ih (List.subset_cons_self _ _)
  | case3 => exact List.Subset.refl _

theorem bar_not_mem_ofNat (n : ℕ) : bar ∉ Decimal.ofNat n := fun h =>
  absurd (isDigit_of_mem_ofNat h) (by decide)

theorem bar_not_mem_priceToStr (p : ℤ) : bar ∉ priceToStr p := by
  intro h
  have h := List.mem_reverse.mp (trimZeros_subset _ (List.mem_reverse.mp h))
  rw [List.append_assoc, List.mem_append, List.mem_append, List.mem_cons, List.mem_append] at h
  rcases h with h | h | h | h | h
  · split_ifs at h
    · exact absurd (List.mem_singleton.mp h) (by decide)
    · cases h
  · exact bar_not_mem_ofNat _ h
  · exact absurd h (by decide)
  · exact absurd (List.eq_of_mem_replicate h) (by decide)
  · exact bar_not_mem_ofNat _ h

theorem bar_not_mem_ofInt (z : ℤ) : bar ∉ ofInt z := not_mem_ofInt (by decide) (by decide) z

theorem orderToFix_clean (hs : bar ∉ x.config.senderCompId) (ht : bar ∉ x.config.targetCompId)
    (hsymbol : bar ∉ order.symbol.data) : Clean (x.orderToFix order) := by
  have hbase : Clean ({ type := .newOrderSingle : FixMessage }
      |>.set msgType (ascii "D")
      |>.set clOrdId (idToStr order.clientOrderId)
      |>.set symbol order.symbol.data
      |>.set side (sideToFix order.side)
      |>.set orderQty (Decimal.ofInt order.quantity)
      |>.set ordType (ordTypeToFix order.type)
      |>.set timeInForce (tifToFix order.tif order.type)
      |>.set senderCompId x.config.senderCompId
      |>.set targetCompId x.config.targetCompId) := by
    have hempty : Clean { type := .newOrderSingle } := nofun
    have hside : bar ∉ sideToFix order.side := by cases order.side <;> decide
    have htype : bar ∉ ordTypeToFix order.type := by cases order.type <;> decide
    have htif : bar ∉ tifToFix order.tif order.type := by cases order.tif <;> cases order.type <;> decide
    refine Clean.set ?_ (by decide) ht
    refine Clean.set ?_ (by decide) hs
    refine Clean.set ?_ (by decide) htif
    refine Clean.set ?_ (by decide) htype
    refine Clean.set ?_ (by decide) (bar_not_mem_ofInt order.quantity)
    refine Clean.set ?_ (by decide) hside
    refine Clean.set ?_ (by decide) hsymbol
    refine Clean.set ?_ (by decide) (bar_not_mem_ofNat order.clientOrderId)
    exact hempty.set (by decide) (by decide)
  unfold orderToFix
  simp only
  split_ifs
  · exact hbase.set (by decide) (bar_not_mem_priceToStr _)
  · exact hbase

variable (x order) in
theorem orderToFix_type : deriveType { type := .heartbeat, fields := (x.orderToFix order).fields } =
    x.orderToFix order := by
  have hmt : (x.orderToFix order).fields msgType = some (ascii "D") := by
    unfold orderToFix
    simp only
    split_ifs <;> rfl
  have htype : (x.orderToFix order).type = .newOrderSingle := by
    unfold orderToFix
    simp only
    split_ifs <;> rfl
  cases hmsg : x.orderToFix order with
  | mk type fields =>
    rw [hmsg] at hmt htype
    simp only at hmt htype
    subst htype
    unfold deriveType
    simp only
    rw [hmt]
    rfl

variable (x order) in
theorem orderToFix_symbol : (x.orderToFix order).fields symbol = some order.symbol.data := by
  unfold orderToFix
  simp only
  split_ifs <;> rfl

variable (x order) in
theorem listed_orderToFix : Listed (x.orderToFix order) := by
  unfold orderToFix
  simp only
  split_ifs
  all_goals
    repeat apply Listed.set
    exact ⟨_, .empty _⟩

/-- An order's message is read back as it was just when its symbol is free of the delimiter. -/
theorem orderToFix_roundTrip_iff (x : FixAdapter) (order : Order) (hs : bar ∉ x.config.senderCompId)
    (ht : bar ∉ x.config.targetCompId) :
    (∀ entries, Lists entries (x.orderToFix order) → deserialize (serialize entries) = some (x.orderToFix order)) ↔
      bar ∉ order.symbol.data := by
  constructor
  · intro h
    obtain ⟨entries, hl⟩ := listed_orderToFix x order
    exact deserialize_free (h entries hl) symbol order.symbol.data (orderToFix_symbol x order)
  · intro hsymbol entries hl
    rw [deserialize_serialize (orderToFix_clean hs ht hsymbol) hl, orderToFix_type]

theorem orderToFix_roundTrip_plain :
    let x : FixAdapter := { config := {} }
    let order : Order := { symbol := .assign (ascii "AAPL"), quantity := 10, price := 100 * priceScale }
    (bar ∉ x.config.senderCompId ∧ bar ∉ x.config.targetCompId ∧ bar ∉ order.symbol.data) ∧
      ∀ entries, Lists entries (x.orderToFix order) →
        deserialize (serialize entries) = some (x.orderToFix order) := by
  intro x order
  have hsymbol : bar ∉ order.symbol.data := by decide
  exact ⟨⟨by decide, by decide, hsymbol⟩, (orderToFix_roundTrip_iff x order (by decide) (by decide)).mpr hsymbol⟩

def withBar : Order where
  clientOrderId := 7
  symbol := .assign (ascii "BRK|B")
  quantity := 10
  price := 100 * priceScale

def withBarEntries : List (ℤ × List UInt8) :=
  [(price, ascii "100.0"), (targetCompId, ascii "EXCHANGE"), (senderCompId, ascii "SOR_CLIENT"),
    (timeInForce, ascii "1"), (ordType, ascii "2"), (orderQty, ascii "10"), (side, ascii "1"),
    (symbol, ascii "BRK|B"), (clOrdId, ascii "7"), (msgType, ascii "D")]

/-- The symbol of an order for BRK|B comes back as BRK. -/
theorem orderToFix_symbol_cut :
    let x : FixAdapter := { config := {} }
    (bar ∉ x.config.senderCompId ∧ bar ∉ x.config.targetCompId ∧ Lists withBarEntries (x.orderToFix withBar)) ∧
      (deserialize (serialize withBarEntries)).map (fun msg => msg.fields symbol) = some (some (ascii "BRK")) ∧
      deserialize (serialize withBarEntries) ≠ some (x.orderToFix withBar) := by
  intro x
  have hread : (deserialize (serialize withBarEntries)).map (fun msg => msg.fields symbol) =
      some (some (ascii "BRK")) := by decide
  refine ⟨⟨by decide, by decide, ?_⟩, hread, fun h => ?_⟩
  · have hprice : priceToStr withBar.price = ascii "100.0" := by decide
    have hmsg : x.orderToFix withBar = (({ type := .newOrderSingle : FixMessage }
        |>.set msgType (ascii "D") |>.set clOrdId (ascii "7") |>.set symbol (ascii "BRK|B") |>.set side (ascii "1")
        |>.set orderQty (ascii "10") |>.set ordType (ascii "2") |>.set timeInForce (ascii "1")
        |>.set senderCompId (ascii "SOR_CLIENT") |>.set targetCompId (ascii "EXCHANGE")).set price (ascii "100.0")) := by
      rw [← hprice]
      rfl
    rw [hmsg]
    unfold withBarEntries
    repeat refine Lists.cons ?_ _ (by decide)
    exact .empty _
  · rw [h, Option.map_some, orderToFix_symbol] at hread
    exact absurd hread (by decide)

end FixAdapter

end Klett.Sor
