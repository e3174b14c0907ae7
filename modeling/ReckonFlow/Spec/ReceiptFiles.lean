import ReckonFlow.Lib.RealPath
import ReckonFlow.Spec.ExtractionRuns
import ReckonFlow.Spec.StoreUploads

/-! The way from the row and the file that `store_upload` leaves to `read_text`, which another process
may run: with its own working directory and its own storage setting. -/

namespace ReckonFlow.StoreUpload

open PyText PyPath Storage

/-- The row as its text columns hold it; `none` where a value cannot be sent. -/
def Receipt.row (r : Receipt) : Option ExtractionRuns.Row := do
  let filename ← text? r.filename
  let storagePath ← text? (render r.storagePath)
  return { filename := filename, storagePath := storagePath }

/-- What `read_text` meets at a storage path; `loopText` is the text of the error for a loop of links. -/
def storageAt (fs : FileSystem) (storage : Path) (files : Files) (loopText : PyStr) (storagePath : String) :
    ExtractionRuns.Stored :=
  match resolveStoragePath fs storage (Path.parse (py storagePath)) with
  | .error .escapes => .escapes
  | .error .symlinkLoop => .unreadable loopText
  | .ok path => match files path with
      | none => .missing
      | some content => .file content

end ReckonFlow.StoreUpload
