import ReckonFlow.Spec.ReceiptSchema

/-! What an extraction comes back as from the column of its receipt: the validators take what
they have returned once, save for the length of an upper-cased code. -/

namespace ReckonFlow.ReceiptSchema

open ReceiptUpload

variable {U : Unicode} {env : Env} {L : Library U env}

/-! ## The validators on their own results -/

theorem moneyStr_eq_ok {value : Input U} {m : MoneyStr U} :
    moneyStr value = .ok m ↔ MoneyText.moneyStr U value.money = .ok m.text := by
  unfold moneyStr
  split
  · rename_i text h
    constructor
    · intro hm
      rw [← Except.ok.inj hm]
      exact h
    · intro hm
      obtain ⟨text', accepted⟩ := m
      obtain rfl : text = text' := Except.ok.inj (h.symm.trans hm)
      rfl
  · rename_i e h
    rw [h]
    constructor
    · intro hm
      cases hm
    · intro hm
      cases hm

/-- An amount is in normal form. -/
theorem moneyStr_text (m : MoneyStr U) : moneyStr (.str m.text) = .ok m := by
  obtain ⟨value, hvalue⟩ := m.accepted
  exact moneyStr_eq_ok.2 (moneyStr_str.2 (moneyStr_ok hvalue))

theorem orNone_dumpAmount (o : Option (MoneyStr U)) : orNone moneyStr (dumpAmount o) = .ok o := by
  cases o with
  | none => rfl
  | some m =>
    show (moneyStr (.str m.text)).map some = .ok (some m)
    rw [moneyStr_text]
    rfl

theorem shortText_text {n : ℕ} (s : ShortText n) : shortText (U := U) n (.str s.text) = .ok s := by
  unfold shortText
  dsimp only
  rw [dif_pos s.short]

/-- A code is upper case, and taken again if it still has three characters. -/
theorem currencyCode_text (c : CurrencyCode env) :
    currencyCode (U := U) env (.str c.text) = if c.text.length = 3 then .ok c else .error [[]] := by
  obtain ⟨text, code, hcode, rfl⟩ := c
  unfold currencyCode
  dsimp only
  split_ifs with h
  · simp only [env.upper_upper]
  · rfl

/-! ## The fields -/

variable {α : Type} {members : List (String × Input U)} {name : String} {value : Input U}
  {check : Input U → Check α} {default : Option α}

theorem field_ok {a : α} (hget : Dict.get members name = some value) (hcheck : check value = .ok a) :
    field members name check default = .ok a := by
  unfold field
  rw [hget]
  dsimp only
  rw [hcheck]
  rfl

theorem field_error {e : List Loc} (hget : Dict.get members name = some value)
    (hcheck : check value = .error e) :
    field members name check default = .error (e.map (name :: ·)) := by
  unfold field
  rw [hget]
  dsimp only
  rw [hcheck]
  rfl

theorem lineItem_dump (i : ReceiptLineItem U) : lineItem i.dump = .ok i := by
  unfold lineItem ReceiptLineItem.dump
  dsimp only
  rw [Except.map_eq_ok]
  refine ⟨(i.description, i.quantity, i.unitPrice, i.total, ()), ?_, rfl⟩
  simp only [Except.both_eq_ok]
  refine ⟨field_ok rfl (shortText_text _), field_ok rfl (moneyStr_text _),
    field_ok rfl (orNone_dumpAmount _), field_ok rfl (moneyStr_text _), rfl⟩

theorem lineItems_map {f : ReceiptLineItem U → Input U} (hf : ∀ i, lineItem (f i) = .ok i)
    (items : List (ReceiptLineItem U)) : lineItems (.list (items.map f)) = .ok items := by
  unfold lineItems
  rw [Except.collect_eq_ok]
  suffices hall : ∀ k, ((items.map f).zipIdx k).map (fun (p : Input U × ℕ) =>
      (lineItem p.1).mapError (List.map (toString p.2 :: ·))) = items.map .ok from hall 0
  induction items with
  | nil => exact fun k => rfl
  | cons i items ih =>
    intro k
    rw [List.map_cons, List.zipIdx_cons, List.map_cons, List.map_cons, ih, hf]
    rfl

/-- `json` and pydantic read back what they have written of this extraction. -/
structure Faithful (L : Library U env) (e : ReceiptExtraction U env) : Prop where
  loads : L.loads (L.dumps (e.dump L)) = some (e.dump L)
  /-- an empty text is no JSON -/
  empty : L.loads "" = none
  date : ∀ d, e.receiptDate = some d → L.dateOf (.str (L.isoformat d)) = some d

variable {e : ReceiptExtraction U env}

theorem orNone_dumpDate (h : Faithful L e) :
    orNone (date L) (dumpDate L e.receiptDate) = .ok e.receiptDate := by
  cases hd : e.receiptDate with
  | none => rfl
  | some d =>
    show (date L (.str (L.isoformat d))).map some = .ok (some d)
    unfold date
    dsimp only
    rw [h.date d hd]
    rfl

theorem modelValidate_dump (h : Faithful L e) (hc : e.currency.text.length = 3) :
    modelValidate L (e.dump L) = .ok e := by
  unfold modelValidate ReceiptExtraction.dump
  dsimp only
  rw [Except.map_eq_ok]
  refine ⟨(e.vendor, e.receiptDate, e.currency, e.subtotal, e.vatAmount, e.vatRate, e.total,
    e.lineItems, ()), ?_, rfl⟩
  simp only [Except.both_eq_ok]
  refine ⟨field_ok rfl (shortText_text _), field_ok rfl (orNone_dumpDate h),
    field_ok rfl ((currencyCode_text _).trans (if_pos hc)), field_ok rfl (orNone_dumpAmount _),
    field_ok rfl (orNone_dumpAmount _), field_ok rfl (orNone_dumpAmount _),
    field_ok rfl (moneyStr_text _), field_ok rfl (lineItems_map lineItem_dump _), rfl⟩

/-- A code that has grown is refused on the way back. -/
theorem modelValidate_dump_refused (hc : e.currency.text.length ≠ 3) (e' : ReceiptExtraction U env) :
    modelValidate L (e.dump L) ≠ .ok e' := by
  intro h
  unfold modelValidate ReceiptExtraction.dump at h
  dsimp only at h
  obtain ⟨p, hp, -⟩ := Except.map_eq_ok.1 h
  simp only [Except.both_eq_ok] at hp
  have hfield := hp.2.2.1
  rw [field_error (e := [[]]) rfl ((currencyCode_text e.currency).trans (if_neg hc))] at hfield
  cases hfield

theorem readExtraction_save (h : Faithful L e) :
    readExtraction L (saveExtraction L e) = (modelValidate L (e.dump L)).toOption := by
  have hjson : L.dumps (e.dump L) ≠ "" := by
    intro hempty
    have hloads := h.loads
    rw [hempty, h.empty] at hloads
    cases hloads
  unfold readExtraction saveExtraction ReceiptUpload.saveExtraction
  dsimp only
  rw [if_neg hjson, h.loads]

theorem readExtraction_refused (h : Faithful L e) (hc : e.currency.text.length ≠ 3) :
    readExtraction L (saveExtraction L e) = none := by
  rw [readExtraction_save h]
  cases hv : modelValidate L (e.dump L) with
  | ok e' => exact absurd hv (modelValidate_dump_refused hc e')
  | error _ => rfl

/-- A stored extraction is read back as it was, iff its upper-cased currency still has three
characters. -/
theorem read_back_iff (h : Faithful L e) :
    readExtraction L (saveExtraction L e) = some e ↔ e.currency.text.length = 3 := by
  constructor
  · intro hsome
    by_contra hc
    rw [readExtraction_refused h hc] at hsome
    cases hsome
  · intro hc
    rw [readExtraction_save h, modelValidate_dump h hc]
    rfl

/-- Upper case with one character that grows. -/
def demoUpper : Env where
  tokenSetRatio := fun _ _ => 100
  textEmbedding := fun _ => List.replicate 384 0
  cosineSimilarity := fun _ _ => 0
  upperChar := fun c => if c = 'ß' then ['S', 'S'] else [c.toUpper]
  upper_fixed := by
    intro c d hd
    have hsharp : ∀ x : Char, x ≠ 'ß' → x.toUpper ≠ 'ß' := by
      intro x hx hupper
      unfold Char.toUpper at hupper
      split at hupper
      · rename_i hlower
        have hval := congrArg (fun y : Char => y.val.toNat) hupper
        have hle := UInt32.le_iff_toNat_le.1 hlower.2
        simp at hval hle
        omega
      · exact hx hupper
    split_ifs at hd with hc
    · simp only [List.mem_cons, List.not_mem_nil, or_false, or_self] at hd
      rw [hd]
      decide
    · obtain rfl := List.mem_singleton.1 hd
      rw [if_neg (hsharp c hc)]
      simp

/-- `"12.50"` as it is. -/
def demoFare : MoneyStr demoUnicode := ⟨"12.50", .str "12.50", by decide +kernel⟩

def demoTaxi (currency : CurrencyCode demoUpper) : ReceiptExtraction demoUnicode demoUpper where
  vendor := ⟨"Berlin Taxi GmbH", by decide⟩
  receiptDate := none
  currency := currency
  subtotal := none
  vatAmount := none
  vatRate := none
  total := demoFare
  lineItems := [⟨⟨"Airport transfer", by decide⟩, one, none, demoFare⟩]

def demoMembers (currency : String) : String :=
  "\"vendor\":\"Berlin Taxi GmbH\",\"receipt_date\":null,\"currency\":\"" ++ currency ++
    "\",\"subtotal\":null,\"vat_amount\":null,\"vat_rate\":null,\"total\":\"12.50\"," ++
    "\"line_items\":[\x7b\"description\":\"Airport transfer\",\"quantity\":\"1\"," ++
    "\"unit_price\":null,\"total\":\"12.50\"\x7d]"

def demoJson (currency : String) : String := "\x7b" ++ demoMembers currency ++ "\x7d"

def demoDump (currency : String) : Input demoUnicode :=
  .dict [("vendor", .str "Berlin Taxi GmbH"), ("receipt_date", .none), ("currency", .str currency),
    ("subtotal", .none), ("vat_amount", .none), ("vat_rate", .none), ("total", .str "12.50"),
    ("line_items", .list [.dict [("description", .str "Airport transfer"), ("quantity", .str "1"),
      ("unit_price", .none), ("total", .str "12.50")]])]

/-- A parser and a printer that know one receipt. -/
def demoLibrary (currency : String) : Library demoUnicode demoUpper where
  dumps _ := demoJson currency
  loads text := if text = demoJson currency then some (demoDump currency) else none
  isoformat _ := "2026-07-21"
  dateOf _ := none
  upper_eur := by decide

theorem demoJson_ne (currency : String) : "" ≠ demoJson currency := by
  intro h
  have hlist := congrArg String.toList h
  simp [demoJson] at hlist

theorem demo_faithful (c : CurrencyCode demoUpper) : Faithful (demoLibrary c.text) (demoTaxi c) where
  loads := if_pos rfl
  empty := by
    show (if "" = demoJson c.text then some (demoDump c.text) else none) = none
    rw [if_neg (demoJson_ne c.text)]
  date d hd := by cases hd

def demoEur : CurrencyCode demoUpper := ⟨"EUR", "eur", rfl, by decide⟩

theorem read_back_iff_taxi :
    readExtraction (demoLibrary "EUR") (saveExtraction (demoLibrary "EUR") (demoTaxi demoEur)) =
      some (demoTaxi demoEur) :=
  (read_back_iff (demo_faithful demoEur)).2 rfl

/-- The code `ßßß` is accepted with three characters and stored with six. -/
theorem read_back_fails : ¬ ∀ (U : Unicode) (env : Env) (L : Library U env)
    (e : ReceiptExtraction U env), Faithful L e → readExtraction L (saveExtraction L e) = some e := by
  intro hall
  have hread := hall _ _ _ _ (demo_faithful ⟨"SSSSSS", "ßßß", rfl, by decide⟩)
  rw [readExtraction_refused (demo_faithful _) (by decide)] at hread
  cases hread

end ReckonFlow.ReceiptSchema
