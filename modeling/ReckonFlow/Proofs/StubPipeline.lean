import ReckonFlow.Proofs.StoredExtractions
import ReckonFlow.Proofs.StubContract
import ReckonFlow.Proofs.Worker
import ReckonFlow.Spec.StubPipeline

/-! Without an API key a receipt is read the same way by every execution, and a poll shows what
the stub has read, through the JSON of the column. -/

namespace ReckonFlow.StubPipeline

open ExtractionRuns Machine PyText ReceiptSchema ReceiptUpload StubExtractor Text

variable {T : Tables} {env : Env} {L : Library T.toUnicode env} {P : Texts L} {receiptId : Id}
  {row : Row} {content : List UInt8} {e : ReceiptExtraction T.toUnicode env}

/-! ## The currency -/

/-- The codes the stub knows are upper case. -/
theorem upper_findCurrency (hupper : ∀ c, c.isUpper = true → env.upperChar c = [c]) (text : String) :
    env.upper (findCurrency T env text) = findCurrency T env text := by
  have hsymbols : ∀ p ∈ currencySymbols, p.2.toList.all Char.isUpper = true := by decide
  have hcodes : ∀ code ∈ currencyCodes, code.toList.all Char.isUpper = true := by decide
  have hletters : (findCurrency T env text).toList.all Char.isUpper = true := by
    unfold findCurrency
    split
    · rename_i p hp
      exact hsymbols _ (List.mem_of_find?_eq_some hp)
    · dsimp only
      cases hfind : currencyCodes.find? _ with
      | none => exact hcodes "EUR" (by decide)
      | some code => exact hcodes code (List.mem_of_find?_eq_some hfind)
  exact Env.upper_of_fixed fun c hc => hupper c (List.all_eq_true.1 hletters c hc)

theorem currencyCode_ok {value : Input T.toUnicode} {code : CurrencyCode env}
    (h : currencyCode env value = .ok code) : ∃ s, value = .str s ∧ s.length = 3 ∧ code.text = env.upper s := by
  unfold currencyCode at h
  cases value with
  | str s =>
    dsimp only at h
    split_ifs at h with hlength
    obtain rfl := Except.ok.inj h
    exact ⟨s, rfl, hlength, rfl⟩
  | _ => cases h

theorem field_eq_ok {α : Type} {members : List (String × Input T.toUnicode)} {name : String}
    {check : Input T.toUnicode → Check α} {default : Option α} {value : Input T.toUnicode} {a : α}
    (hget : Dict.get members name = some value) (h : field members name check default = .ok a) :
    check value = .ok a := by
  unfold field at h
  rw [hget] at h
  exact Except.mapError_eq_ok.1 h

/-- A currency the stub has read still has three characters. -/
theorem length_currency (hupper : ∀ c, c.isUpper = true → env.upperChar c = [c])
    {rawText filename : String} (h : extract L rawText filename = .ok e) : e.currency.text.length = 3 := by
  unfold extract at h
  dsimp only at h
  split_ifs at h
  cases htotal : findLabelled T (receiptLines rawText) totalWords subtotalWords with
  | none =>
    rw [htotal] at h
    cases h
  | some total =>
    rw [htotal] at h
    obtain ⟨items, -, hvalid⟩ := Except.bind_eq_ok.1 (Except.mapError_eq_ok.1 h)
    unfold modelValidate at hvalid
    obtain ⟨p, hp, rfl⟩ := Except.map_eq_ok.1 hvalid
    simp only [Except.both_eq_ok] at hp
    obtain ⟨s, hs, -, htext⟩ := currencyCode_ok (field_eq_ok rfl hp.2.2.1)
    obtain rfl := Input.str.inj hs
    rw [htext, upper_findCurrency hupper]
    exact length_findCurrency rawText

/-! ## One try -/

/-- What the stub is given of a file. -/
def readable (content : List UInt8) : String :=
  String.ofList ((decodeUtf8 content).toList.take maxExtractionChars)

/-- An execution without an API key, on the file of the receipt. -/
structure Offline (L : Library T.toUnicode env) (P : Texts L) (receiptId : Id) (row : Row)
    (content : List UInt8) (t : Trigger × World (ReceiptExtraction T.toUnicode env)) : Prop where
  extractor : t.2.extractor = stubReceiptExtractor L P
  file : t.2.storage row.storagePath = .file content
  durationMs : Int4 t.2.durationMs
  job : ∀ ctx, t.1 = .job ctx → Int4 ctx.attempt ∧ ctx.jobId = some (py (receiptJobId receiptId))

variable {t : Trigger × World (ReceiptExtraction T.toUnicode env)}
  {ts : List (Trigger × World (ReceiptExtraction T.toUnicode env))}

/-- Every execution reads the same. -/
theorem attempted_eq (h : Offline L P receiptId row content t) :
    attempted (call receiptId t.2 t.1) row =
      ((extract L (readable content) row.filename).mapError fun exc =>
        Raised.other (py (message L P (readable content) exc))).map
          fun e => ⟨L.dumps (e.dump L), P.json_noNul _⟩ := by
  have hcall : (call receiptId t.2 t.1).extractor = stubReceiptExtractor L P ∧
      (call receiptId t.2 t.1).storage = t.2.storage := by
    obtain ⟨trigger, world⟩ := t
    cases trigger with
    | job ctx => exact ⟨h.extractor, rfl⟩
    | task => exact ⟨h.extractor, rfl⟩
  have hread : readText (call receiptId t.2 t.1).receiptId (call receiptId t.2 t.1).storage row =
      .ok (readable content) := by
    unfold readText
    rw [hcall.2, h.file]
    rfl
  unfold attempted
  rw [hread, hcall.1]
  simp only [stubReceiptExtractor, bind, Except.bind]
  cases extract L (readable content) row.filename with
  | ok e => rfl
  | error exc => rfl

theorem attempted_ok (h : Offline L P receiptId row content t)
    (he : extract L (readable content) row.filename = .ok e) :
    attempted (call receiptId t.2 t.1) row = .ok ⟨L.dumps (e.dump L), P.json_noNul _⟩ := by
  rw [attempted_eq h, he]
  rfl

theorem attempted_error (h : Offline L P receiptId row content t) {exc : StubExtractor.Raised}
    (he : extract L (readable content) row.filename = .error exc) :
    attempted (call receiptId t.2 t.1) row =
      .error (.other (py (message L P (readable content) exc))) := by
  rw [attempted_eq h, he]
  rfl

theorem noNul_append {a b : String} (ha : '\x00' ∉ a.toList) (hb : '\x00' ∉ b.toList) :
    '\x00' ∉ (a ++ b).toList := by
  rw [String.toList_append, List.mem_append, not_or]
  exact ⟨ha, hb⟩

theorem validation_ne {α : Type} {check : Check α} {text : String} :
    check.mapError StubExtractor.Raised.validation ≠ .error (.extraction text) := by
  cases check with
  | ok a => nofun
  | error errors => nofun

/-- What the stub raises has a text every column takes. -/
theorem noNul_message (hname : '\x00' ∉ row.filename.toList) {exc : StubExtractor.Raised}
    (he : extract L (readable content) row.filename = .error exc) :
    '\x00' ∉ (message L P (readable content) exc).toList := by
  cases exc with
  | validation errors => exact P.validation_noNul _
  | extraction text =>
    unfold extract at he
    dsimp only at he
    split_ifs at he
    · obtain rfl := Raised.extraction.inj (Except.error.inj he)
      exact noNul_append hname (by decide)
    · cases htotal : findLabelled T (receiptLines (readable content)) totalWords subtotalWords with
      | none =>
        rw [htotal] at he
        obtain rfl := Raised.extraction.inj (Except.error.inj he)
        exact noNul_append (by decide) hname
      | some total =>
        rw [htotal] at he
        exact absurd he validation_ne

theorem storable_take {text : String} (h : '\x00' ∉ text.toList) :
    ExtractionRuns.Storable ((py text).take 2000) := by
  refine ⟨_, take_py text 2000, ?_⟩
  rw [String.toList_ofList]
  exact fun hmem => h (List.mem_of_mem_take hmem)

theorem Offline.orderly (h : Offline L P receiptId row content t) (hname : '\x00' ∉ row.filename.toList) :
    Orderly receiptId row t := by
  refine ⟨?_, h.durationMs, h.job, fun raised hraised => ?_⟩
  · rw [h.extractor]
    exact ⟨"stub", rfl, by decide, by decide⟩
  · cases he : extract L (readable content) row.filename with
    | ok e =>
      rw [attempted_ok h he] at hraised
      cases hraised
    | error exc =>
      rw [attempted_error h he] at hraised
      obtain rfl := Except.error.inj hraised
      exact storable_take (noNul_message hname he)

/-! ## All executions -/

/-- A poll after the first success. -/
theorem poll_extracted {db : ExtractionRuns.Db} {json : JsonText} (h : Faithful L e)
    (hc : e.currency.text.length = 3) (hjson : json.text = L.dumps (e.dump L))
    (hdb : db.receipt = some (row.extracted json)) :
    getReceiptExtraction L receiptId db = .ok ⟨receiptId, .extracted, some e, none⟩ := by
  have hread : readExtraction L (row.extracted json).toReceipt = some e := by
    have hsaved := readExtraction_save h
    rw [modelValidate_dump h hc, ReceiptSchema.saveExtraction, ← hjson] at hsaved
    exact hsaved
  unfold getReceiptExtraction
  rw [hdb]
  dsimp only
  rw [hread]
  rfl

/-- A receipt without an API key: if the stub reads it, the first execution stores what it has
read, and every poll shows it again; if not, every execution records the failure. -/
theorem stub_receipt {db : ExtractionRuns.Db} (hid : Int4 receiptId) (hrow : db.receipt = some row)
    (hopen : row.status ≠ .extracted) (hname : '\x00' ∉ row.filename.toList)
    (hupper : ∀ c, c.isUpper = true → env.upperChar c = [c])
    (hfaithful : ∀ e, extract L (readable content) row.filename = .ok e → Faithful L e)
    (hne : ts ≠ []) (h : ∀ t ∈ ts, Offline L P receiptId row content t) :
    (∀ e, extract L (readable content) row.filename = .ok e →
      getReceiptExtraction L receiptId (executions receiptId db ts).2 =
          .ok ⟨receiptId, .extracted, some e, none⟩ ∧
        (∃ run, (executions receiptId db ts).2.runs = db.runs ++ [run] ∧ run.outcome = .success) ∧
        ∀ answer ∈ (executions receiptId db ts).1, answer.2.isOk = true) ∧
    ∀ exc, extract L (readable content) row.filename = .error exc →
      getReceiptExtraction L receiptId (executions receiptId db ts).2 =
          .ok ⟨receiptId, .failed, readExtraction L row.toReceipt,
            some (String.ofList ((message L P (readable content) exc).toList.take 2000))⟩ ∧
        ∃ runs, (executions receiptId db ts).2.runs = db.runs ++ runs ∧ runs.length = ts.length ∧
          ∀ run ∈ runs, run.outcome = .failed := by
  have horderly : ∀ t ∈ ts, Orderly receiptId row t := fun t ht => (h t ht).orderly hname
  obtain ⟨⟨runs, hruns, hall⟩, -, hreceipt, hanswers⟩ := story hid hrow ⟨rfl, rfl, rfl, hopen⟩ horderly
  constructor
  · intro e he
    obtain ⟨t, rest, rfl⟩ := List.exists_cons_of_ne_nil hne
    have hj := attempted_ok (h t (List.mem_cons_self ..)) he
    have htried : throughFirst (succeeds? receiptId row) (t :: rest) = [t] :=
      throughFirst_of_pos (by rw [succeeds?, hj]; rfl)
    rw [htried] at hall hreceipt hanswers
    refine ⟨?_, ?_, fun answer hanswer => ?_⟩
    · rcases hreceipt t rfl with ⟨json, hjson, hfinal⟩ | ⟨raised, -, hraised, -⟩
      · obtain rfl := Except.ok.inj (hj.symm.trans hjson)
        exact poll_extracted (hfaithful e he) (length_currency hupper he) rfl hfinal
      · rw [hj] at hraised
        cases hraised
    · obtain ⟨run, none, hrecords, hnone, rfl⟩ := List.forall₂_cons_left_iff.1 hall
      cases hnone
      refine ⟨run, hruns, hrecords.outcome.2 ?_⟩
      rw [hj]
      rfl
    · have hmem := List.mem_map_of_mem (f := fun p : _ × Except _ _ => (p.1, p.2.isOk)) hanswer
      rw [hanswers, List.mem_append, List.mem_map, List.mem_map] at hmem
      rcases hmem with ⟨t', ht', heq⟩ | ⟨t', -, heq⟩
      · obtain rfl := List.mem_singleton.1 ht'
        rw [← (Prod.mk.inj heq).2, succeeds?, hj]
        exact Bool.or_true _
      · exact (Prod.mk.inj heq).2.symm
  · intro exc hexc
    have hlost : ∀ t ∈ ts, succeeds? receiptId row t = false := by
      intro t ht
      rw [succeeds?, attempted_error (h t ht) hexc]
      rfl
    rw [throughFirst_of_forall hlost] at hall hreceipt
    constructor
    · obtain ⟨last, hlast⟩ := Option.isSome_iff_exists.1 (List.getLast?_isSome.2 hne)
      have hraised := attempted_error (h last (List.mem_of_getLast? hlast)) hexc
      rcases hreceipt last hlast with ⟨json, hjson, -⟩ | ⟨raised, text, hraised', htext, hfinal⟩
      · rw [hraised] at hjson
        cases hjson
      · obtain rfl := Except.error.inj (hraised.symm.trans hraised')
        obtain rfl := py_injective ((take_py _ _).symm.trans htext)
        unfold getReceiptExtraction
        rw [hfinal]
        rfl
    · refine ⟨runs, hruns, hall.length_eq.symm, fun run hrun => ?_⟩
      have hnone : runs.countP (·.outcome = .success) = 0 := by
        rw [countP_records hall, List.countP_eq_zero]
        exact fun t ht => Bool.not_eq_true _ ▸ hlost t ht
      have hfailed := List.countP_eq_zero.1 hnone run hrun
      cases houtcome : run.outcome with
      | success => exact absurd (decide_eq_true houtcome) hfailed
      | failed => rfl

def demoStub : Library demoTables.toUnicode demoUpper := demoLibrary "EUR"

def demoTexts : Texts demoStub where
  validation _ := "1 validation error for ReceiptExtraction"
  validation_noNul _ := by decide +kernel
  json_noNul _ := by
    show '\x00' ∉ (demoJson "EUR").toList
    decide +kernel

def demoContent : List UInt8 := encodeUtf8 "Berlin Taxi GmbH\nAirport transfer 12.50\nTotal 12.50"

def demoWaiting : ExtractionRuns.Db := ⟨some ExtractionRuns.demoRow, []⟩

def demoOffline (trigger : Trigger) : Trigger × World (ReceiptExtraction demoTables.toUnicode demoUpper) where
  fst := trigger
  snd :=
    { extractor := stubReceiptExtractor demoStub demoTexts
      storage := fun _ => .file demoContent
      durationMs := 3 }

theorem demoUpper_upper (c : Char) (h : c.isUpper = true) : demoUpper.upperChar c = [c] := by
  have hsharp : c ≠ 'ß' := by
    rintro rfl
    revert h
    decide
  have hsame : c.toUpper = c := Char.toUpper_eq_of_not_isLower (Char.not_isLower_of_isUpper h)
  show (if c = 'ß' then ['S', 'S'] else [c.toUpper]) = [c]
  rw [if_neg hsharp, hsame]

/-- The background task reads the receipt, and a job delivered after it changes nothing. -/
theorem stub_receipt_taxi :
    getReceiptExtraction demoStub 1 (executions 1 demoWaiting [demoOffline .task, demoOffline (demoJob 1)]).2 =
      .ok ⟨1, .extracted, some (demoTaxi demoEur), none⟩ := by
  have hextract : extract demoStub (readable demoContent) "taxi.txt" = .ok (demoTaxi demoEur) := by
    decide +kernel
  have hid : Int4 1 := by norm_num [Int4]
  have hthree : Int4 3 := by norm_num [Int4]
  have hopen : ExtractionRuns.demoRow.status ≠ .extracted := by decide
  have hwaiting : demoWaiting.receipt = some ExtractionRuns.demoRow := rfl
  have hfaithful : ∀ e, extract demoStub (readable demoContent) "taxi.txt" = .ok e → Faithful demoStub e := by
    intro e he
    obtain rfl := Except.ok.inj (hextract.symm.trans he)
    exact demo_faithful demoEur
  have hjob : ∀ ctx, demoJob 1 = .job ctx →
      Int4 ctx.attempt ∧ ctx.jobId = some (py (receiptJobId 1)) := by
    rintro ctx ⟨⟩
    exact ⟨hid, rfl⟩
  have hoffline : ∀ t ∈ [demoOffline .task, demoOffline (demoJob 1)],
      Offline demoStub demoTexts 1 ExtractionRuns.demoRow demoContent t :=
    List.forall_mem_cons.2 ⟨⟨rfl, rfl, hthree, fun ctx hctx => by cases hctx⟩,
      List.forall_mem_cons.2 ⟨⟨rfl, rfl, hthree, hjob⟩, fun t ht => absurd ht List.not_mem_nil⟩⟩
  have hstub := stub_receipt hid hwaiting hopen (by decide) demoUpper_upper hfaithful
    (List.cons_ne_nil _ _) hoffline
  exact (hstub.1 _ hextract).1

end ReckonFlow.StubPipeline
