import ReckonFlow.Lib.Utf8
import ReckonFlow.Proofs.StoreUploads
import ReckonFlow.Spec.ReceiptFiles

/-! The text of an upload comes back: whatever the uploads and failures around it, the extraction of a
committed receipt reads the bytes of its own request. -/

namespace ReckonFlow.StoreUpload

open Lts PyText PyPath Storage ExtractionRuns

variable {u : Setup} {s : State} {r : Receipt} {row : ExtractionRuns.Row}

theorem IsComponent.isPart {name : PyStr} (h : IsComponent name) : IsPart name :=
  ⟨h.ne_nil, h.ne_dot, h.no_slash⟩

theorem row_eq_some : r.row = some row ↔
    py row.filename = r.filename ∧ py row.storagePath = render r.storagePath ∧
      row = { filename := row.filename, storagePath := row.storagePath } := by
  simp only [Receipt.row, Option.bind_eq_bind, Option.bind_eq_some_iff, Option.pure_def, Option.some.injEq,
    text?_eq_some]
  constructor
  · rintro ⟨filename, hfilename, storagePath, hpath, rfl⟩
    exact ⟨hfilename.symm, hpath.symm, rfl⟩
  · rintro ⟨hfilename, hpath, heq⟩
    exact ⟨_, hfilename.symm, _, hpath.symm, heq.symm⟩

/-- The path drawn for an upload has no links on it. -/
theorem Setup.path_real (u : Setup) (hlinks : u.fs.CleanLinks) (hcwd : Real u.fs u.fs.cwd)
    (hstorage : u.storage.Clean) {a : Upload} (ha : a ∈ u.uploads) {path : List PyStr} (h : u.path a = .ok path) :
    Real u.fs path := by
  obtain ⟨root, hroot, rfl⟩ := u.path_eq ha h
  have hname := storedName_component a.uuid a.filename
  exact (resolve_real hlinks hcwd hstorage hroot).child (IsComponent.isPart hname) hname.ne_dots
    (u.unused a ha root _ (List.prefix_append _ _)).1

/-- What a process finds at a stored path that has no links. -/
theorem storageAt_real {fs : FileSystem} {storage : Path} {files : Files} {loopText : PyStr} {root path : List PyStr}
    {storagePath : String} (hroot : resolve fs storage = some root) (hpath : Real fs path)
    (htext : py storagePath = render path) : storageAt fs storage files loopText storagePath =
      if root <+: path then (match files path with
        | none => .missing
        | some content => .file content)
      else .escapes := by
  have hresolved : resolveStoragePath fs storage (Path.parse (py storagePath)) =
      if root <+: path then .ok path else .error .escapes := by
    unfold resolveStoragePath resolved
    rw [hroot, htext, parse_render hpath.parts, resolve_of_real hpath]
    rfl
  unfold storageAt
  rw [hresolved]
  split_ifs <;> rfl

/-- In every state of every run of uploads, and for a reader that stands anywhere and has any storage
setting: `read_text` of a committed receipt gives the text its request uploaded, cut to the limit, if the
path is below the reader's storage directory, and refuses it if not. -/
theorem receipts_read_back {tr : List (State × Event)} (hrun : Run (Fires (StoreUpload.step u)) (State.init u) tr s)
    (hlinks : u.fs.CleanLinks) (hcwd : Real u.fs u.fs.cwd) (hstorage : u.storage.Clean) :
    ∀ r ∈ s.receipts, ∀ row, r.row = some row → ∃ i a, s.phase i = .committed r ∧ u.uploads[i]? = some a ∧
      py row.filename = safeFilename a.filename ∧
      ∀ fs storage root loopText, fs.links = u.fs.links → resolve fs storage = some root →
        readText r.id (storageAt fs storage s.files loopText) row = (if root <+: r.storagePath
          then .ok (String.ofList ((Text.decodeUtf8 a.content).toList.take maxExtractionChars))
          else .error (.notFound "Stored file path escapes the storage directory")) ∧
        ∀ text, a.content = Text.encodeUtf8 text → root <+: r.storagePath →
          readText r.id (storageAt fs storage s.files loopText) row =
            .ok (String.ofList (text.toList.take maxExtractionChars)) := by
  have h : Inv u s := hrun.invariant (Inv.init u) fun _ _ _ hi hs => hi.step hs
  intro r hr row hrow
  obtain ⟨i, hphase, ⟨a, ha, hpath, hreceipt⟩, b, hb, hfile⟩ := h.committed hr
  obtain rfl := Option.some.inj (ha.symm.trans hb)
  obtain ⟨hfilename, htext, -⟩ := row_eq_some.1 hrow
  refine ⟨i, a, hphase, ha, ?_, fun fs storage root loopText hsame hroot => ?_⟩
  · rw [hfilename, hreceipt]
    rfl
  have hreal := (u.path_real hlinks hcwd hstorage (List.mem_of_getElem? ha) hpath).congr hsame
  have hread : readText r.id (storageAt fs storage s.files loopText) row = if root <+: r.storagePath
      then .ok (String.ofList ((Text.decodeUtf8 a.content).toList.take maxExtractionChars))
      else .error (.notFound "Stored file path escapes the storage directory") := by
    unfold readText
    rw [storageAt_real hroot hreal htext, hfile]
    split_ifs <;> rfl
  refine ⟨hread, fun text hcontent hbelow => ?_⟩
  rw [hread, if_pos hbelow, hcontent, Text.decodeUtf8_encodeUtf8]

/-- A worker in another directory reads the upload that won the race for its expense. -/
theorem receipts_read_back_race : ∃ tr s r row, Run (Fires (step demoSetup)) (State.init demoSetup) tr s ∧
    r ∈ s.receipts ∧ r.row = some row ∧ ∃ a ∈ demoUploads,
      readText r.id (storageAt ⟨[py "srv"], []⟩ (Path.parse (py "../data")) s.files []) row =
        .ok (String.ofList ((Text.decodeUtf8 a.content).toList.take maxExtractionChars)) := by
  have hdemo : (drive (step demoSetup) (State.init demoSetup) demoEvents).map (fun r =>
      r.2.receipts.map fun r => (r.row.isSome, decide ([py "data"] <+: r.storagePath))) =
        some [(true, true)] := by decide +kernel
  obtain ⟨⟨tr, s⟩, hdrive, hreceipts⟩ := Option.map_eq_some_iff.1 hdemo
  obtain ⟨r, hr, hshown⟩ : ∃ r ∈ s.receipts, (r.row.isSome, decide ([py "data"] <+: r.storagePath)) = (true, true) :=
    List.mem_map.1 (hreceipts ▸ List.mem_singleton_self _)
  obtain ⟨hsome, hbelow⟩ := Prod.mk.inj hshown
  obtain ⟨row, hrow⟩ := Option.isSome_iff_exists.1 hsome
  have hrun := run_of_drive hdrive
  obtain ⟨i, a, -, ha, -, hread⟩ := receipts_read_back hrun (by rintro _ ⟨⟩) .root (parse_clean _) r hr row hrow
  obtain ⟨hread, -⟩ := hread ⟨[py "srv"], []⟩ (Path.parse (py "../data")) [py "data"] [] rfl (by decide +kernel)
  rw [if_pos (of_decide_eq_true hbelow)] at hread
  exact ⟨tr, s, r, row, hrun, hr, hrow, a, List.mem_of_getElem? ha, hread⟩

end ReckonFlow.StoreUpload
