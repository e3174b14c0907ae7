import ReckonFlow.Spec.StubExtractor
import ReckonFlow.Spec.Worker

/-! The pipeline without an API key: the stub as the extractor of the task, and the route that
shows what came of a receipt. -/

namespace ReckonFlow.StubPipeline

open PyText ReceiptUpload ReceiptSchema

variable {T : StubExtractor.Tables} {env : Env} (L : Library T.toUnicode env)

/-- The texts pydantic makes, in which control characters are escaped: the JSON, and what the
`ValidationError` for a receipt text says. -/
structure Texts where
  validation : (rawText : String) → String
  validation_noNul : ∀ rawText, '\x00' ∉ (validation rawText).toList
  json_noNul : ∀ value, '\x00' ∉ (L.dumps value).toList

variable (P : Texts L)

/-- `str(exc)` -/
def message (rawText : String) : StubExtractor.Raised → String
  | .extraction message => message
  | .validation _ => P.validation rawText

/-- `StubReceiptExtractor` -/
def stubReceiptExtractor : ExtractionRuns.Extractor (ReceiptExtraction T.toUnicode env) where
  name := py "stub"
  extract rawText filename :=
    (StubExtractor.extract L rawText filename).mapError fun exc => py (message L P rawText exc)
  dumpJson extraction := .ok ⟨L.dumps (extraction.dump L), P.json_noNul _⟩

structure ReceiptExtractionRead (U : Unicode) (env : Env) where
  receiptId : Id
  status : ReceiptStatus
  extraction : Option (ReceiptExtraction U env)
  errorMessage : Option String
  deriving DecidableEq

/-- `GET /receipts/{receipt_id}/extraction` -/
def getReceiptExtraction (receiptId : Id) (db : ExtractionRuns.Db) :
    Except String (ReceiptExtractionRead T.toUnicode env) :=
  match db.receipt with
  | none => .error (ExtractionRuns.notFoundText receiptId)
  | some receipt => .ok {
      receiptId := receiptId
      status := receipt.status
      extraction := readExtraction L receipt.toReceipt
      errorMessage := receipt.errorMessage }

end ReckonFlow.StubPipeline
