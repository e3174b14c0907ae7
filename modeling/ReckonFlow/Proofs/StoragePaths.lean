import ReckonFlow.Spec.StoragePaths

/-! No upload name escapes the storage directory. -/

namespace ReckonFlow.Storage

open PyText PyPath

variable {s : PyStr} {c : Fin 0x110000}

/-- What `safe_filename` promises. -/
structure SafeName (s : PyStr) : Prop where
  ne_nil : s ≠ []
  length : s.length ≤ 120
  safe : ∀ c ∈ s, isSafe c = true
  ne_dot : s ≠ py "."
  ne_dots : s ≠ py ".."

theorem isSafe_codePoint (d : Char) :
    isSafe (codePoint d) = (d.isAlphanum || d = '.' || d = '_' || d = '-') := by
  rw [isSafe, scalar_codePoint]
  rfl

theorem safe_replaceRuns (inRun : Bool) (s : PyStr) : ∀ c ∈ replaceRuns inRun s, isSafe c = true := by
  induction s generalizing inRun with
  | nil => exact fun c hc => absurd hc List.not_mem_nil
  | cons d s ih =>
    unfold replaceRuns
    split_ifs with hd
    · exact List.forall_mem_cons.2 ⟨hd, ih false⟩
    · exact ih true
    · refine List.forall_mem_cons.2 ⟨?_, ih true⟩
      rw [isSafe_codePoint]
      rfl

theorem mem_of_mem_stripEdges (h : c ∈ stripEdges s) : c ∈ s := by
  have hback := (List.dropWhile_sublist isEdge).subset (List.mem_reverse.1 h)
  exact (List.dropWhile_sublist isEdge).subset (List.mem_reverse.1 hback)

theorem stripEdges_prefix (s : PyStr) : stripEdges s <+: s.dropWhile isEdge := by
  rw [← List.reverse_suffix, stripEdges, List.reverse_reverse]
  exact List.dropWhile_suffix isEdge

/-- The first character left is none of those stripped. -/
theorem head_stripEdges (h : (stripEdges s).head? = some c) : isEdge c = false := by
  obtain ⟨rest, hrest⟩ := stripEdges_prefix s
  have hhead : (s.dropWhile isEdge).head? = some c := by
    rw [← hrest, List.head?_append, h]
    rfl
  have hnot := List.head?_dropWhile_not isEdge s
  rw [hhead] at hnot
  simpa using hnot

/-- Whatever the basename. -/
theorem safeBasename_safe (s : PyStr) : SafeName (safeBasename s) := by
  have hclean : ∃ cleaned : PyStr, safeBasename s = cleaned.take 120 ∧ cleaned ≠ [] ∧
      (∀ c ∈ cleaned, isSafe c = true) ∧ ∀ c, cleaned.head? = some c → isEdge c = false := by
    by_cases hnil : stripEdges (replaceRuns false s) = []
    · refine ⟨py "receipt", ?_, by decide, fun c hc => ?_, ?_⟩
      · simp only [safeBasename, hnil, if_true]
      · obtain ⟨d, hd, rfl⟩ := List.mem_map.1 hc
        have hletters : "receipt".toList.all Char.isAlphanum = true := by decide
        rw [isSafe_codePoint, List.all_eq_true.1 hletters d hd]
        rfl
      · rintro c ⟨⟩
        rfl
    · refine ⟨stripEdges (replaceRuns false s), ?_, hnil, ?_, fun c => head_stripEdges⟩
      · simp only [safeBasename, hnil, if_false]
      · exact fun c hc => safe_replaceRuns false s c (mem_of_mem_stripEdges hc)
  obtain ⟨cleaned, heq, hne, hsafe, hhead⟩ := hclean
  obtain ⟨c, cs, rfl⟩ := List.exists_cons_of_ne_nil hne
  have hedge : isEdge c = false := hhead c rfl
  rw [heq]
  refine ⟨List.cons_ne_nil _ _, List.length_take_le _ _, fun c hc => hsafe c (List.mem_of_mem_take hc), ?_, ?_⟩
  · intro hdot
    obtain ⟨rfl, -⟩ := List.cons.inj hdot
    cases hedge
  · intro hdots
    obtain ⟨rfl, -⟩ := List.cons.inj hdots
    cases hedge

/-- The prefix and the name are one component of a path. -/
theorem storedName_component (uuid : UuidHex) (filename : PyStr) : IsComponent (storedName uuid filename) := by
  have hsafe : ∀ c ∈ storedName uuid filename, isSafe c = true := by
    intro c hc
    rcases List.mem_append.1 hc with hc | hc
    · obtain ⟨d, hd, rfl⟩ := List.mem_map.1 hc
      have hletter : d.isAlphanum = true := by
        rcases uuid.hexadecimal d hd with hdigit | ⟨hlo, hhi⟩
        · simp [Char.isAlphanum, hdigit]
        · have hlower : d.isLower = true := by
            have hz : d ≤ 'z' := hhi.trans (by decide)
            simpa [Char.isLower] using ⟨hlo, hz⟩
          simp [Char.isAlphanum, Char.isAlpha, hlower]
      rw [isSafe_codePoint, hletter]
      rfl
    · rcases List.mem_cons.1 hc with rfl | hc
      · rfl
      · exact (safeBasename_safe _).safe c hc
  have hlength : 33 ≤ (storedName uuid filename).length := by
    simp only [storedName, List.length_append, List.length_map, uuid.length, List.length_cons]
    omega
  have hne : ∀ t : PyStr, t.length < 33 → storedName uuid filename ≠ t := by
    rintro t ht rfl
    omega
  refine ⟨hne _ (by decide), hne _ (by decide), hne _ (by decide), fun hc => ?_, fun hc => ?_⟩
  · cases hsafe _ hc
  · cases hsafe _ hc

theorem uploadPath_eq {fs : FileSystem} {storage : Path} {root : List PyStr} {uuid : UuidHex}
    {filename : PyStr} (hroot : resolve fs storage = some root)
    (hfresh : fs.readlink (root ++ [storedName uuid filename]) = none) :
    uploadPath fs storage uuid filename = .ok (root ++ [storedName uuid filename]) := by
  have hchild := resolve_child hroot (storedName_component uuid filename) hfresh
  have hinside : resolveStoragePath fs storage (storage.join (storedName uuid filename)) =
      if root <+: root ++ [storedName uuid filename] then .ok (root ++ [storedName uuid filename])
      else .error .escapes := by
    unfold resolveStoragePath resolved
    rw [hroot, hchild]
    rfl
  exact hinside.trans (if_pos (List.prefix_append root _))

/-- For any filename, once `mkdir` has left the storage directory at `root`: the file is written in that
directory, under one name, unless a link already has this name. -/
theorem upload_stays_inside (filename : PyStr) (uuid : UuidHex) (fs : FileSystem) (storage : Path)
    (root : List PyStr) (hroot : resolve fs storage = some root)
    (hfresh : fs.readlink (root ++ [storedName uuid filename]) = none) :
    SafeName (safeFilename filename) ∧ IsComponent (storedName uuid filename) ∧
      storage.join (storedName uuid filename) = ⟨storage.absolute, storage.parts ++ [storedName uuid filename]⟩ ∧
      uploadPath fs storage uuid filename = .ok (root ++ [storedName uuid filename]) :=
  ⟨safeBasename_safe _, storedName_component uuid filename, (storedName_component uuid filename).join storage,
    uploadPath_eq hroot hfresh⟩

def demoUuid : UuidHex where
  digits := List.replicate 32 '0'
  hexadecimal := fun _ hc => .inl (List.eq_of_mem_replicate hc ▸ rfl)
  length := List.length_replicate

/-- The storage directory is behind a link. -/
theorem upload_stays_inside_linked :
    uploadPath ⟨[py "app"], [([py "app", py "var"], ⟨true, [py "data"]⟩)]⟩ (Path.parse (py "var/receipts"))
      demoUuid (py "../../etc/passwd") =
    .ok [py "data", py "receipts", storedName demoUuid (py "../../etc/passwd")] :=
  (upload_stays_inside _ _ _ _ [py "data", py "receipts"] (by decide +kernel) rfl).2.2.2

end ReckonFlow.Storage
